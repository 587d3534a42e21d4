import McpFramework.Auth.StoreFrame

/-!
# Auth — StoreMutex

Mutual exclusion in the whole token store.

The mutation lock of an instance is one, though each half keeps it for its own
sections; and a task may hold it across both, as a `remove_token` does. Who is in
a section under it, whichever half the section is of, has it. From this comes
what a boot and a purge rely on: while they are under way nothing but they
themselves takes a token out of the memory of their instance.
-/

namespace McpFramework

open Lib

namespace OpaqueProtocol

/-- An operation leaves the mutation lock when it is done. -/
theorem runSection_leaves {st st' : State} {t : Nat} {reply : Answer}
    (hin : (st.tasks t).pc.inMutation = true) (h : runSection st t reply = some st') :
    (st'.tasks t).pc.inMutation = true ∨ ∃ result, (st'.tasks t).pc = .done result := by
  cases hpc : (st.tasks t).pc with
  | storeIndex s m | storeForward s m old =>
    simp only [runSection, hpc, Option.some.injEq] at h
    rw [← h, goto_pc]
    exact .inl rfl
  | storeInverse kind s m old =>
    cases kind with
    | access =>
      simp only [runSection, hpc, Option.some.injEq] at h
      rw [← h, goto_pc]
      exact .inl rfl
    | refresh =>
      cases old <;> simp only [runSection, hpc, Option.some.injEq] at h
      · rw [← h, finish_pc]
        exact .inr ⟨none, rfl⟩
      · rw [← h, goto_pc]
        exact .inl rfl
  | storeDrop kind _ _ | removeDrop kind _ _ =>
    cases kind <;> simp only [runSection, hpc, Option.some.injEq] at h
    · rw [← h, goto_pc]
      exact .inl rfl
    · rw [← h, finish_pc]
      exact .inr ⟨none, rfl⟩
  | removeIndex s =>
    simp only [runSection, hpc, Option.some.injEq] at h
    rw [← h, goto_pc]
    refine .inl ?_
    split <;> rfl
  | removeLookup _ | expireIndex _ =>
    simp only [runSection, hpc, Option.some.injEq] at h
    rw [← h, goto_pc]
    exact .inl rfl
  | removeForward s opaques =>
    cases opaques <;> simp only [runSection, hpc, Option.some.injEq] at h
    · rw [← h, finish_pc]
      exact .inr ⟨none, rfl⟩
    · rw [← h, goto_pc]
      exact .inl rfl
  | expireBackend a =>
    simp only [runSection, hpc, Option.some.injEq] at h
    rw [← h, goto_pc]
    exact .inr ⟨none, rfl⟩
  | _ => simp [hpc, Pc.inMutation] at hin

end OpaqueProtocol

namespace StoreProtocol

open TokenProtocol (Answer)

/-! ## Sections under the lock -/

/-- The phases under the mutation lock in their own right: those of a purge and of
a boot once they have it. -/
def Pc.holds : Pc → Bool
  | .idle => false
  | .mint _ _ _ => false
  | .purgeLock => false
  | .loadLock => false
  | .granted _ => false
  | .done => false
  | _ => true

namespace State

/-- A task is in a section under the mutation lock. -/
def inMutation (st : State) (t : Nat) : Bool :=
  match (st.tasks t).pc.half with
  | .neither => (st.tasks t).pc.holds
  | .tokens => (st.tokens.tasks t).pc.inMutation
  | .opaques => (st.opaques.tasks t).pc.inMutation
  | .both => true

/-- A half runs an operation where its task is. -/
def Placed (st : State) (t : Nat) : Prop :=
  match (st.tasks t).pc.half with
  | .neither => True
  | .tokens => (st.tokens.tasks t).inst = st.on t
  | .opaques => (st.opaques.tasks t).inst = st.on t
  | .both =>
    (st.tokens.tasks t).inst = st.on t ∧ (st.opaques.tasks t).inst = st.on t ∧
      (st.tokens.tasks t).pc.inMutation = true ∧ (st.opaques.tasks t).pc.inMutation = true

end State

structure Exclusive (st : State) : Prop where
  synced : ∀ i, (st.opaques.instances i).mutationLock = (st.tokens.instances i).mutationLock
  placed : ∀ t, st.Placed t
  holder : ∀ t, st.inMutation t = true → st.mutationLock t = some t

/-- What a step of a task that writes `written` does to the records and to what is
known of the sessions and the tasks there are. -/
structure Records (st st' : State) (t : Nat) (written : Option (String × PersistedToken)) :
    Prop where
  clock : st'.clock = st.clock
  called : st'.called = st.called
  named : ∀ s ∈ st.sessionIds, s ∈ st'.sessionIds
  working : ∀ s pc, (st'.tokens.tasks t).pc = .on s pc →
    s ∈ st'.sessionIds ∨ ∃ pc', (st.tokens.tasks t).pc = .on s pc'
  record : ∀ s, st'.record s = st.record s ∨ st'.record s = none ∨
    ∃ p, written = some (s, p) ∧ st'.record s = some p

/-- What a step of a task does to the tasks, the tokens in memory and the locks. -/
structure Turn (st st' : State) (t : Nat) (written : Option (String × PersistedToken)) :
    Prop where
  records : Records st st' t written
  tasks : ∀ u, u ≠ t → st'.tasks u = st.tasks u
  tokens : ∀ u, u ≠ t → st'.tokens.tasks u = st.tokens.tasks u
  opaques : ∀ u, u ≠ t → st'.opaques.tasks u = st.opaques.tasks u
  on : st'.on t = st.on t
  instances : ∀ i, i ≠ st.on t → st'.tokens.instances i = st.tokens.instances i
  synced : ∀ i, (st'.opaques.instances i).mutationLock = (st'.tokens.instances i).mutationLock
  placed : st'.Placed t
  mutation : Moves (fun inside : Bool => inside = true) t (st.inMutation t) (st'.inMutation t)
    (st.mutationLock t) (st'.mutationLock t)
  keeps : st.inMutation t = false → ∀ s, ((st.memory t).get? s).isSome = true →
    ((st'.memory t).get? s).isSome = true

section Exclusive

variable {st st' mid : State} {t u : Nat} {pc : Pc} {s : String} {answer : Answer} {l : Label}
  {written : Option (String × PersistedToken)}

/-- Two tasks under the lock are on different instances. -/
theorem Exclusive.apart (h : Exclusive st) (ht : st.inMutation t = true)
    (hu : st.inMutation u = true) (hne : u ≠ t) : st.on u ≠ st.on t := by
  intro heq
  have h₁ := h.holder t ht
  have h₂ := h.holder u hu
  unfold State.mutationLock at h₁ h₂
  rw [heq, h₁] at h₂
  exact hne (Option.some.inj h₂).symm

theorem Exclusive.turn (h : Exclusive st) (hturn : Turn st st' t written) : Exclusive st' where
  synced := hturn.synced
  placed := fun u => by
    by_cases hu : u = t
    · rw [hu]
      exact hturn.placed
    · have hplaced := h.placed u
      unfold State.Placed State.on at hplaced ⊢
      rw [hturn.tasks u hu, hturn.tokens u hu, hturn.opaques u hu]
      exact hplaced
  holder := fun u hin => by
    by_cases hu : u = t
    · subst hu
      exact hturn.mutation.held (h.holder u) hin
    · have hin' : st.inMutation u = true := by
        unfold State.inMutation at hin ⊢
        rwa [hturn.tasks u hu, hturn.tokens u hu, hturn.opaques u hu] at hin
      have hheld := h.holder u hin'
      have hon : st'.on u = st.on u := by rw [State.on, State.on, hturn.tasks u hu]
      unfold State.mutationLock at hheld ⊢
      rw [hon]
      by_cases hi : st.on u = st.on t
      · -- A lock that is held does not change hands.
        have hchange := hturn.mutation.changes
        unfold State.mutationLock at hchange
        rw [hturn.on, ← hi, hheld] at hchange
        rcases hchange with hsame | hfree | hinside
        · exact hsame
        · cases hfree
        · exact absurd hi (h.apart hinside hin' hu)
      · rw [hturn.instances _ hi]
        exact hheld

/-- Nothing but what it does itself takes a token out of the memory of a task
under the lock. -/
theorem Turn.keeps_of_ne (hturn : Turn st st' t written) (h : Exclusive st)
    (hu : st.inMutation u = true) (hne : u ≠ t) (hs : ((st.memory u).get? s).isSome = true) :
    ((st'.memory u).get? s).isSome = true := by
  have hon : st'.on u = st.on u := by rw [State.on, State.on, hturn.tasks u hne]
  unfold State.memory at hs ⊢
  rw [hon]
  by_cases hi : st.on u = st.on t
  · have hout : st.inMutation t = false := by
      by_contra hin
      exact h.apart (by simpa using hin) hu hne hi
    have hkeeps := hturn.keeps hout s
    unfold State.memory at hkeeps
    rw [hturn.on, ← hi] at hkeeps
    exact hkeeps hs
  · rw [hturn.instances _ hi]
    exact hs

/-! ### One change at a time -/

theorem Turn.congr (h : Turn st mid t written) (htasks : st'.tasks = mid.tasks)
    (htokens : st'.tokens = mid.tokens) (hopaques : st'.opaques = mid.opaques)
    (hcalled : st'.called = mid.called) (hnamed : ∀ s ∈ mid.sessionIds, s ∈ st'.sessionIds) :
    Turn st st' t written := by
  have hrecords : Records st st' t written := by
    refine ⟨?_, hcalled.trans h.records.called, fun s hs => hnamed s (h.records.named s hs),
      fun s pc hpc => ?_, fun s => ?_⟩
    · rw [State.clock, htokens]
      exact h.records.clock
    · rw [htokens] at hpc
      exact (h.records.working s pc hpc).imp (hnamed s) id
    · rw [State.record, htokens]
      exact h.records.record s
  cases st'
  cases mid
  cases htasks
  cases htokens
  cases hopaques
  exact ⟨hrecords, h.tasks, h.tokens, h.opaques, h.on, h.instances, h.synced, h.placed, h.mutation,
    h.keeps⟩

/-- Locks and what the opaque half does do not matter to the records. -/
theorem Records.congr (h : Records st mid t written) (hclock : st'.tokens.clock = mid.tokens.clock)
    (hcalled : st'.called = mid.called) (hnamed : st'.sessionIds = mid.sessionIds)
    (htasks : st'.tokens.tasks = mid.tokens.tasks)
    (hsessions : st'.tokens.sessions = mid.tokens.sessions) : Records st st' t written where
  clock := hclock.trans h.clock
  called := hcalled.trans h.called
  named := fun s hs => by
    rw [hnamed]
    exact h.named s hs
  working := fun s pc hpc => by
    rw [htasks] at hpc
    rw [hnamed]
    exact h.working s pc hpc
  record := fun s => by
    rw [State.record, hsessions]
    exact h.record s

/-- The token half is left alone. -/
theorem Records.same (st : State) (t : Nat) (written : Option (String × PersistedToken)) :
    Records st st t written :=
  ⟨rfl, rfl, fun _ hs => hs, fun _ pc hpc => .inr ⟨pc, hpc⟩, fun _ => .inl rfl⟩

/-- Neither tasks nor locks change, and the memory of one instance at most. -/
structure Quiet (st mid : State) (t : Nat) : Prop where
  clock : mid.clock = st.clock
  called : mid.called = st.called
  named : ∀ s ∈ st.sessionIds, s ∈ mid.sessionIds
  record : ∀ s, mid.record s = st.record s ∨ mid.record s = none
  tasks : mid.tasks = st.tasks
  tokens : mid.tokens.tasks = st.tokens.tasks
  opaques : mid.opaques.tasks = st.opaques.tasks
  instances : ∀ i, i ≠ st.on t → mid.tokens.instances i = st.tokens.instances i
  locks : ∀ i, (mid.tokens.instances i).mutationLock = (st.tokens.instances i).mutationLock
  opaqueLocks : ∀ i, (mid.opaques.instances i).mutationLock = (st.opaques.instances i).mutationLock
  keeps : st.inMutation t = false → ∀ s, ((st.memory t).get? s).isSome = true →
    ((mid.memory t).get? s).isSome = true

theorem Quiet.same (htasks : mid.tasks = st.tasks) (htokens : mid.tokens = st.tokens)
    (hopaques : mid.opaques.tasks = st.opaques.tasks) (hcalled : mid.called = st.called)
    (hnamed : mid.sessionIds = st.sessionIds)
    (hlocks : ∀ i, (mid.opaques.instances i).mutationLock =
      (st.opaques.instances i).mutationLock) : Quiet st mid t where
  clock := by rw [State.clock, htokens, State.clock]
  called := hcalled
  named := fun s hs => by rwa [hnamed]
  record := fun s => .inl (by rw [State.record, htokens, State.record])
  tasks := htasks
  tokens := by rw [htokens]
  opaques := hopaques
  instances := fun i _ => by rw [htokens]
  locks := fun i => by rw [htokens]
  opaqueLocks := hlocks
  keeps := fun _ s hs => by
    rw [State.memory, State.on, htasks, htokens]
    exact hs

theorem Quiet.refl (st : State) (t : Nat) : Quiet st st t :=
  .same rfl rfl rfl rfl rfl fun _ => rfl

theorem Quiet.records (h : Quiet st mid t) : Records st mid t written where
  clock := h.clock
  called := h.called
  named := h.named
  working := fun s pc hpc => .inr ⟨pc, by rwa [h.tokens] at hpc⟩
  record := fun s => (h.record s).imp_right .inl

/-- The memory of the task's own instance is replaced under the lock. -/
theorem Quiet.setMemory (hin : st.inMutation t = true) (tokens : HashMap String StoredToken)
    (refreshLocks : HashMap String Nat) : Quiet st (st.setMemory t tokens refreshLocks) t where
  clock := rfl
  called := rfl
  named := fun _ hs => hs
  record := fun _ => .inl rfl
  tasks := rfl
  tokens := rfl
  opaques := rfl
  instances := fun i hi => Function.update_of_ne hi ..
  locks := fun i => by
    by_cases hi : i = st.on t
    · subst hi
      simp [State.setMemory]
    · simp [State.setMemory, hi]
  opaqueLocks := fun _ => rfl
  keeps := fun hout => by
    rw [hin] at hout
    cases hout

theorem Quiet.setIndex (st : State) (t : Nat) (index : OpaqueIndex) :
    Quiet st (st.setIndex t index) t := by
  refine .same rfl rfl rfl rfl rfl fun i => ?_
  by_cases hi : i = st.on t
  · subst hi
    simp [State.setIndex]
  · simp [State.setIndex, hi]

theorem Quiet.deleteRecord (st : State) (t : Nat) (answer : Answer) (key : String) :
    Quiet st (st.deleteRecord answer key) t := by
  unfold State.deleteRecord
  split
  · exact ⟨rfl, rfl, fun _ hs => hs, fun s => TokenSessions.record_deleteRecord st.tokens key,
      rfl, rfl, rfl, fun _ _ => rfl, fun _ => rfl, fun _ => rfl, fun _ _ hs => hs⟩
  · exact .refl st t

theorem Quiet.deleteMapping (st : State) (t : Nat) (answer : Answer) (key : String) :
    Quiet st (st.deleteMapping answer key) t := by
  unfold State.deleteMapping
  split
  · exact .same rfl rfl rfl rfl rfl fun _ => rfl
  · exact .refl st t

theorem Quiet.deleteInverse (st : State) (t : Nat) (answer : Answer) (kind : OpaqueKind)
    (token : String) : Quiet st (st.deleteInverse answer kind token) t := by
  unfold State.deleteInverse
  split
  · exact .same rfl rfl rfl rfl rfl fun _ => rfl
  · exact .refl st t

theorem goto_tasks (mid : State) (pc : Pc) : ((mid.goto t pc).tasks t).pc = pc := by
  simp [State.goto]

theorem goto_on (mid : State) (pc : Pc) : (mid.goto t pc).on t = mid.on t := by
  simp [State.goto, State.on]

theorem mutationLock_goto (mid : State) (pc : Pc) :
    (mid.goto t pc).mutationLock t = mid.mutationLock t := by
  rw [State.mutationLock, goto_on]
  rfl

theorem memory_goto (mid : State) (pc : Pc) : (mid.goto t pc).memory t = mid.memory t := by
  rw [State.memory, goto_on]
  rfl

theorem placed_of_neither (hhalf : (st.tasks t).pc.half = .neither) : st.Placed t := by
  unfold State.Placed
  rw [hhalf]
  trivial

theorem inMutation_of_neither (hhalf : (st.tasks t).pc.half = .neither) :
    st.inMutation t = (st.tasks t).pc.holds := by
  unfold State.inMutation
  rw [hhalf]

theorem inMutation_of_tokens (hhalf : (st.tasks t).pc.half = .tokens) :
    st.inMutation t = (st.tokens.tasks t).pc.inMutation := by
  unfold State.inMutation
  rw [hhalf]

theorem inMutation_of_opaques (hhalf : (st.tasks t).pc.half = .opaques) :
    st.inMutation t = (st.opaques.tasks t).pc.inMutation := by
  unfold State.inMutation
  rw [hhalf]

theorem placed_tokens (hhalf : (st.tasks t).pc.half = .tokens) :
    st.Placed t ↔ (st.tokens.tasks t).inst = st.on t := by
  unfold State.Placed
  rw [hhalf]

theorem placed_opaques (hhalf : (st.tasks t).pc.half = .opaques) :
    st.Placed t ↔ (st.opaques.tasks t).inst = st.on t := by
  unfold State.Placed
  rw [hhalf]

/-- The task goes on in its own right. -/
theorem Turn.goto (h : Exclusive st) (hquiet : Quiet st mid t) (hhalf : pc.half = .neither)
    (hin : st.inMutation t = pc.holds) : Turn st (mid.goto t pc) t written where
  records := hquiet.records.congr rfl rfl rfl rfl rfl
  tasks := fun u hu => (Function.update_of_ne hu ..).trans (by rw [hquiet.tasks])
  tokens := fun u _ => by
    show mid.tokens.tasks u = _
    rw [hquiet.tokens]
  opaques := fun u _ => by
    show mid.opaques.tasks u = _
    rw [hquiet.opaques]
  on := by rw [goto_on, State.on, State.on, hquiet.tasks]
  instances := hquiet.instances
  synced := fun i => by
    show (mid.opaques.instances i).mutationLock = (mid.tokens.instances i).mutationLock
    rw [hquiet.opaqueLocks, hquiet.locks, h.synced]
  placed := placed_of_neither (by rw [goto_tasks, hhalf])
  mutation := by
    have hlock : mid.mutationLock t = st.mutationLock t := by
      rw [State.mutationLock, State.on, hquiet.tasks]
      exact hquiet.locks _
    rw [mutationLock_goto, hlock, hin, inMutation_of_neither (by rw [goto_tasks, hhalf]),
      goto_tasks]
    exact .stay Iff.rfl
  keeps := fun hout s hs => by
    rw [memory_goto]
    exact hquiet.keeps hout s hs

/-- The mutation lock of both halves is set. -/
theorem mutationLock_setMutation (mid : State) (lock : Option Nat) :
    (mid.setMutation t lock).mutationLock t = lock := by
  simp [State.setMutation, State.lockTokens, State.lockOpaques, State.mutationLock, State.on]

theorem synced_setMutation (h : ∀ i, (mid.opaques.instances i).mutationLock =
    (mid.tokens.instances i).mutationLock) (lock : Option Nat) (i : Nat) :
    ((mid.setMutation t lock).opaques.instances i).mutationLock =
      ((mid.setMutation t lock).tokens.instances i).mutationLock := by
  by_cases hi : i = mid.on t
  · subst hi
    simp [State.setMutation, State.lockTokens, State.lockOpaques, State.on]
  · rw [State.on] at hi
    simp [State.setMutation, State.lockTokens, State.lockOpaques, State.on, hi, h i]

theorem memory_setMutation (mid : State) (lock : Option Nat) :
    (mid.setMutation t lock).memory t = mid.memory t := by
  simp [State.setMutation, State.lockTokens, State.lockOpaques, State.memory, State.on]

/-- The mutation lock changes hands as the task goes on. -/
theorem Turn.setMutation (h : Exclusive st) (hquiet : Quiet st mid t) {lock : Option Nat}
    (hplaced : ((mid.setMutation t lock).goto t pc).Placed t)
    (hmut : Moves (fun inside : Bool => inside = true) t (st.inMutation t)
      (((mid.setMutation t lock).goto t pc).inMutation t) (st.mutationLock t) lock) :
    Turn st ((mid.setMutation t lock).goto t pc) t written where
  records := hquiet.records.congr rfl rfl rfl rfl rfl
  tasks := fun u hu => (Function.update_of_ne hu ..).trans (by
    show mid.tasks u = _
    rw [hquiet.tasks])
  tokens := fun u _ => by
    show mid.tokens.tasks u = _
    rw [hquiet.tokens]
  opaques := fun u _ => by
    show mid.opaques.tasks u = _
    rw [hquiet.opaques]
  on := by
    rw [goto_on]
    show mid.on t = st.on t
    rw [State.on, State.on, hquiet.tasks]
  instances := fun i hi => by
    have hi' : i ≠ mid.on t := by rwa [State.on, hquiet.tasks]
    exact (Function.update_of_ne hi' ..).trans (hquiet.instances i hi)
  synced := synced_setMutation (fun i => by rw [hquiet.opaqueLocks, hquiet.locks, h.synced]) lock
  placed := hplaced
  mutation := by
    rw [mutationLock_goto, mutationLock_setMutation]
    exact hmut
  keeps := fun hout s hs => by
    rw [memory_goto, memory_setMutation]
    exact hquiet.keeps hout s hs

/-- A purge or a boot ends. -/
theorem Turn.finish (h : Exclusive st) (hquiet : Quiet st mid t) (hin : st.inMutation t = true) :
    Turn st (finish mid t) t written := by
  have hhalf : ((((mid.setMutation t none).goto t .done).tasks t).pc).half = .neither := by
    rw [goto_tasks]
    rfl
  refine .setMutation h hquiet (placed_of_neither hhalf) (.leave hin ?_)
  rw [inMutation_of_neither hhalf, goto_tasks]
  exact Bool.false_ne_true

/-- A purge or a boot begins. -/
theorem Turn.lockSection (h : Exclusive st) (hhalf : pc.half = .neither)
    (hs : lockSection st t pc = some st') : Turn st st' t written := by
  unfold StoreProtocol.lockSection at hs
  split at hs <;> cases hs
  refine .setMutation h (.refl st t) (placed_of_neither (by rw [goto_tasks, hhalf])) ?_
  rw [‹st.mutationLock t = none›]
  exact .enter

/-! ### The halves -/

/-- A section of the token half, or the answer it waits for. -/
theorem Turn.putTokens (h : Exclusive st) (hhalf : (st.tasks t).pc.half = .tokens)
    {tokens : TokenSessions.State} (hframe : TokenSessions.Frame st.tokens tokens t)
    (hkeeps : (st.tokens.tasks t).pc.inMutation = false → TokenSessions.Keeps st.tokens tokens t)
    (hrecords : Records st (st.putTokens t tokens) t written) :
    Turn st (st.putTokens t tokens) t written := by
  have hon : (st.tokens.tasks t).inst = st.on t := (placed_tokens hhalf).mp (h.placed t)
  have hhalf' : ((st.putTokens t tokens).tasks t).pc.half = .tokens := hhalf
  have hmut := hframe.mutation
  rw [hon] at hmut
  refine ⟨hrecords, fun _ _ => rfl, hframe.tasks, fun _ _ => rfl, rfl, fun i hi => ?_, fun i => ?_,
    (placed_tokens hhalf').mpr (hframe.sameInst.trans hon), ?_, fun hout s hs => ?_⟩
  · exact hframe.instances i (by rwa [hon])
  · by_cases hi : i = st.on t
    · subst hi
      simp [State.putTokens, State.lockOpaques, State.on]
    · have hsame : (st.putTokens t tokens).tokens.instances i = st.tokens.instances i :=
        hframe.instances i (by rwa [hon])
      rw [hsame, ← h.synced i]
      rw [State.on] at hi
      simp [State.putTokens, State.lockOpaques, State.on, hi]
  · have hlock : st.mutationLock t = (st.tokens.inst t).mutationLock := by
      rw [TokenSessions.State.inst, hon]
      rfl
    rw [hlock, inMutation_of_tokens hhalf, inMutation_of_tokens hhalf']
    exact hmut.congr Iff.rfl Iff.rfl
  · rw [inMutation_of_tokens hhalf] at hout
    have hk := hkeeps hout s
    rw [TokenSessions.State.inst, hon] at hk
    exact hk hs

theorem Turn.runTokens (h : Exclusive st) (hhalf : (st.tasks t).pc.half = .tokens)
    (hs : runTokens st t answer = some st') : Turn st st' t (persisting st (.run t answer)) := by
  have hrecord := record_of_runTokens hs
  obtain ⟨tokens, hrun, rfl⟩ := Option.map_eq_some_iff.mp hs
  have hframe := TokenSessions.runSection_frame hrun
  exact .putTokens h hhalf hframe (fun hout => TokenSessions.runSection_keeps hout hrun)
    ⟨hframe.clock, rfl, fun _ hs => hs,
      fun _ _ hpc => .inr (TokenSessions.runSection_session hrun hpc), hrecord⟩

theorem Turn.reply (h : Exclusive st) (hhalf : (st.tasks t).pc.half = .tokens)
    {response : Option TokenResponse} {tokens : TokenSessions.State}
    (hs : TokenSessions.replySection st.tokens t response = some tokens) :
    Turn st (st.putTokens t tokens) t none :=
  have hframe := TokenSessions.replySection_frame hs
  have hkeeps := TokenSessions.replySection_keeps hs
  .putTokens h hhalf hframe (fun _ => hkeeps.1)
    ⟨hframe.clock, rfl, fun _ hs => hs,
      fun _ _ hpc => .inr (TokenSessions.replySection_session hs hpc), fun s => .inl (hkeeps.2 s)⟩

/-- A section of the opaque half keeps the locks of the halves the same. -/
theorem synced_putOpaques (h : Exclusive st) {opaques : OpaqueProtocol.State}
    (hlocal : OpaqueProtocol.Local st.opaques opaques t) (hon : (st.opaques.tasks t).inst = st.on t)
    (i : Nat) : ((st.putOpaques t opaques).opaques.instances i).mutationLock =
      ((st.putOpaques t opaques).tokens.instances i).mutationLock := by
  by_cases hi : i = st.on t
  · subst hi
    simp [State.putOpaques, State.lockTokens, State.on]
  · have hsame : opaques.instances i = st.opaques.instances i :=
      hlocal.instances i (by rwa [hon])
    rw [State.on] at hi
    simp [State.putOpaques, State.lockTokens, State.on, hi, hsame, h.synced i]

theorem mutationLock_putOpaques (opaques : OpaqueProtocol.State) :
    (st.putOpaques t opaques).mutationLock t =
      (opaques.instances (st.on t)).mutationLock := by
  simp [State.putOpaques, State.lockTokens, State.mutationLock, State.on]

theorem memory_putOpaques (opaques : OpaqueProtocol.State) :
    (st.putOpaques t opaques).memory t = st.memory t := by
  simp [State.putOpaques, State.lockTokens, State.memory, State.on]

/-- A section of the opaque half. -/
theorem Turn.putOpaques (h : Exclusive st) {opaques : OpaqueProtocol.State}
    (hlocal : OpaqueProtocol.Local st.opaques opaques t)
    (hon : (st.opaques.tasks t).inst = st.on t)
    (hplaced : (st.putOpaques t opaques).Placed t)
    (hmut : Moves (fun inside : Bool => inside = true) t (st.inMutation t)
      ((st.putOpaques t opaques).inMutation t) (st.opaques.instances (st.on t)).mutationLock
      (opaques.instances (st.on t)).mutationLock) :
    Turn st (st.putOpaques t opaques) t written := by
  refine ⟨(Records.same st t written).congr rfl rfl rfl rfl rfl, fun _ _ => rfl, fun _ _ => rfl,
    hlocal.tasks, rfl, fun i hi => Function.update_of_ne hi .., synced_putOpaques h hlocal hon,
    hplaced, ?_, fun _ s hs => ?_⟩
  · have hsynced : st.mutationLock t = (st.opaques.instances (st.on t)).mutationLock :=
      (h.synced _).symm
    rw [mutationLock_putOpaques, hsynced]
    exact hmut
  · rw [memory_putOpaques]
    exact hs

theorem Turn.runOpaques (h : Exclusive st) (hhalf : (st.tasks t).pc.half = .opaques)
    (hs : runOpaques st t answer = some st') : Turn st st' t written := by
  obtain ⟨opaques, hrun, rfl⟩ := Option.map_eq_some_iff.mp hs
  have hlocal := OpaqueProtocol.runSection_local hrun
  have hon : (st.opaques.tasks t).inst = st.on t := (placed_opaques hhalf).mp (h.placed t)
  have hhalf' : ((st.putOpaques t opaques).tasks t).pc.half = .opaques := hhalf
  have hput : Turn st (st.putOpaques t opaques) t written := by
    refine .putOpaques h hlocal hon ((placed_opaques hhalf').mpr (hlocal.sameInst.trans hon)) ?_
    have hmut := hlocal.mutation
    rw [OpaqueProtocol.State.inst, hon] at hmut
    rw [inMutation_of_opaques hhalf, inMutation_of_opaques hhalf']
    exact hmut.congr Iff.rfl Iff.rfl
  exact hput.congr rfl rfl rfl rfl fun _ hs => hs

/-- A task starts an operation of the token half. -/
theorem Turn.startTokens (h : Exclusive st) (hout : st.inMutation t = false) (s : String)
    (op : TokenProtocol.Op) (hhalf : pc.half = .tokens) :
    Turn st ((st.startTokens t s op).goto t pc) t written := by
  have hhalf' : (((st.startTokens t s op).goto t pc).tasks t).pc.half = .tokens := by
    rw [goto_tasks, hhalf]
  have htask : ((st.startTokens t s op).goto t pc).tokens.tasks t = ⟨st.on t, .on s op.start⟩ := by
    simp [State.goto, State.startTokens, State.named, TokenSessions.State.setTask]
  have hrecords : Records st ((st.startTokens t s op).goto t pc) t written := by
    refine ⟨rfl, rfl, fun s' hs' => List.mem_insert_of_mem hs', fun s' pc' hpc' => .inl ?_,
      fun _ => .inl rfl⟩
    rw [htask] at hpc'
    cases hpc'
    exact List.mem_insert_self
  refine ⟨hrecords, fun u hu => Function.update_of_ne hu ..,
    fun u hu => Function.update_of_ne hu .., fun _ _ => rfl, ?_, fun _ _ => rfl, h.synced,
    (placed_tokens hhalf').mpr ?_, ?_, fun _ s hs => ?_⟩
  · rw [goto_on]
    rfl
  · rw [htask, goto_on]
    rfl
  · rw [hout, inMutation_of_tokens hhalf', htask, mutationLock_goto]
    refine .stay ?_
    cases op <;> exact Iff.rfl
  · rw [memory_goto]
    exact hs

/-- A task starts an operation of the opaque half. -/
theorem Turn.startAt (h : Exclusive st) {pc' : OpaqueProtocol.Pc}
    {prior : List OpaqueProtocol.Issue} (hhalf : pc.half = .opaques)
    (hin : st.inMutation t = pc'.inMutation) :
    Turn st ((st.startAt t pc' prior).goto t pc) t written := by
  have hhalf' : (((st.startAt t pc' prior).goto t pc).tasks t).pc.half = .opaques := by
    rw [goto_tasks, hhalf]
  have htask : ((st.startAt t pc' prior).goto t pc).opaques.tasks t =
      ⟨st.on t, pc', prior, []⟩ := by
    simp [State.goto, State.startAt, OpaqueProtocol.State.setTask]
  refine ⟨(Records.same st t written).congr rfl rfl rfl rfl rfl,
    fun u hu => Function.update_of_ne hu ..,
    fun _ _ => rfl, fun u hu => Function.update_of_ne hu .., ?_, fun _ _ => rfl, h.synced,
    (placed_opaques hhalf').mpr ?_, ?_, fun _ s hs => ?_⟩
  · rw [goto_on]
    rfl
  · rw [htask, goto_on]
    rfl
  · rw [hin, inMutation_of_opaques hhalf', htask, mutationLock_goto]
    exact .stay Iff.rfl
  · rw [memory_goto]
    exact hs

/-! ### A removal in both halves -/

theorem inMutation_of_both (hhalf : (st.tasks t).pc.half = .both) : st.inMutation t = true := by
  unfold State.inMutation
  rw [hhalf]

theorem placed_both (hhalf : (st.tasks t).pc.half = .both) :
    st.Placed t ↔ (st.tokens.tasks t).inst = st.on t ∧ (st.opaques.tasks t).inst = st.on t ∧
      (st.tokens.tasks t).pc.inMutation = true ∧ (st.opaques.tasks t).pc.inMutation = true := by
  unfold State.Placed
  rw [hhalf]

/-- A `remove_token` goes on to the mapping, with the lock it has. -/
theorem Turn.startRemoval (h : Exclusive st) (hhalf : (st.tasks t).pc.half = .tokens)
    (hin : (st.tokens.tasks t).pc.inMutation = true) (s : String)
    (prior : List OpaqueProtocol.Issue) :
    Turn st ((st.startAt t (.removeIndex s) prior).goto t .removeTokenMapping) t written := by
  have hhalf' :
      (((st.startAt t (.removeIndex s) prior).goto t .removeTokenMapping).tasks t).pc.half =
      .both := by
    rw [goto_tasks]
    rfl
  have htask : ((st.startAt t (.removeIndex s) prior).goto t .removeTokenMapping).opaques.tasks t =
      ⟨st.on t, .removeIndex s, prior, []⟩ := by
    simp [State.goto, State.startAt, OpaqueProtocol.State.setTask]
  have hon : ((st.startAt t (.removeIndex s) prior).goto t .removeTokenMapping).on t = st.on t :=
    goto_on ..
  refine ⟨(Records.same st t written).congr rfl rfl rfl rfl rfl,
    fun u hu => Function.update_of_ne hu ..,
    fun _ _ => rfl, fun u hu => Function.update_of_ne hu .., hon, fun _ _ => rfl, h.synced,
    (placed_both hhalf').mpr ⟨?_, ?_, hin, ?_⟩, ?_, fun _ s hs => ?_⟩
  · rw [hon]
    exact (placed_tokens hhalf).mp (h.placed t)
  · rw [htask, hon]
  · rw [htask]
    rfl
  · rw [inMutation_of_tokens hhalf, hin, inMutation_of_both hhalf', mutationLock_goto]
    exact .stay Iff.rfl
  · rw [memory_goto]
    exact hs

/-- The mapping is removed under the lock, which is still there for the record. -/
theorem Turn.removal (h : Exclusive st) (hpc : (st.tasks t).pc = .removeTokenMapping)
    (hs : runSection st t answer = some st') : Turn st st' t written := by
  have hhalf : (st.tasks t).pc.half = .both := by rw [hpc]; rfl
  obtain ⟨htokens, hon, htin, hoin⟩ := (placed_both hhalf).mp (h.placed t)
  simp only [runSection, hpc] at hs
  obtain ⟨mid, hmid, rfl⟩ := Option.map_eq_some_iff.mp hs
  obtain ⟨opaques, hrun, rfl⟩ := Option.map_eq_some_iff.mp hmid
  have hlocal := OpaqueProtocol.runSection_local hrun
  have hhalf' : ((st.putOpaques t opaques).tasks t).pc.half = .both := hhalf
  have hheld := h.holder t (inMutation_of_both hhalf)
  split
  · -- The other half has given the lock back, and it is taken again at once.
    have hhalf'' : ((((st.putOpaques t opaques).setMutation t (some t)).goto t
        .removeTokenRecord).tasks t).pc.half = .tokens := by
      rw [goto_tasks]
      rfl
    have hretaken : Turn st (((st.putOpaques t opaques).setMutation t (some t)).goto t
        .removeTokenRecord) t written := by
      refine ⟨(Records.same st t written).congr rfl rfl rfl rfl rfl,
        fun u hu => Function.update_of_ne hu .., fun _ _ => rfl, hlocal.tasks, goto_on ..,
        fun i hi => ?_, synced_setMutation (synced_putOpaques h hlocal hon) _,
        (placed_tokens hhalf'').mpr ?_, ?_, fun hout => ?_⟩
      · exact (Function.update_of_ne hi ..).trans (Function.update_of_ne hi ..)
      · rw [goto_on]
        exact htokens
      · rw [mutationLock_goto, mutationLock_setMutation, hheld, inMutation_of_both hhalf,
          inMutation_of_tokens hhalf'']
        exact .stay ⟨fun _ => rfl, fun _ => htin⟩
      · rw [inMutation_of_both hhalf] at hout
        cases hout
    exact hretaken.congr rfl rfl rfl rfl fun _ hs => hs
  · rename_i hresult
    have hin' : (opaques.tasks t).pc.inMutation = true := by
      rcases OpaqueProtocol.runSection_leaves hoin hrun with hin' | ⟨result, hdone⟩
      · exact hin'
      · simp [State.opaqueResult, State.putOpaques, State.lockTokens, hdone] at hresult
    have hput : Turn st (st.putOpaques t opaques) t written := by
      refine .putOpaques h hlocal hon
        ((placed_both hhalf').mpr ⟨htokens, hlocal.sameInst.trans hon, htin, hin'⟩) ?_
      have hmut := hlocal.mutation
      rw [OpaqueProtocol.State.inst, hon] at hmut
      rw [inMutation_of_both hhalf, inMutation_of_both hhalf']
      exact hmut.congr (by simp [hoin]) (by simp [hin'])
    exact hput.congr rfl rfl rfl rfl fun _ hs => hs

/-! ### The sections -/

theorem out_of_tokenResult {result : Option StoredToken} (h : st.tokenResult t = some result) :
    (st.tokens.tasks t).pc.inMutation = false := by
  obtain ⟨s, hpc⟩ := tokenResult_eq_some h
  rw [hpc]
  rfl

theorem out_of_opaqueResult {result : Option String} (h : st.opaqueResult t = some result) :
    (st.opaques.tasks t).pc.inMutation = false := by
  rw [opaqueResult_eq_some h]
  rfl

theorem Turn.grantSection (h : Exclusive st) {r : String}
    (hpc : (st.tasks t).pc = .grantResolve r) (hs : grantSection st t r answer = some st') :
    Turn st st' t written := by
  have hhalf : (st.tasks t).pc.half = .opaques := by rw [hpc]; rfl
  unfold StoreProtocol.grantSection at hs
  split at hs
  · rename_i hresult
    cases hs
    refine .goto h (.same rfl rfl rfl rfl rfl fun _ => rfl) rfl ?_
    rw [inMutation_of_opaques hhalf, out_of_opaqueResult hresult]
    rfl
  · rename_i s hresult
    cases hs
    have hout : st.inMutation t = false := by
      rw [inMutation_of_opaques hhalf, out_of_opaqueResult hresult]
    have hstarted : Turn st ((st.startTokens t s .get).goto t (.grantToken r s)) t written :=
      .startTokens h hout s .get rfl
    exact hstarted.congr rfl rfl rfl rfl fun _ hs => hs
  · obtain ⟨mid, hmid, rfl⟩ := Option.map_eq_some_iff.mp hs
    have hrun : Turn st mid t written := .runOpaques h hhalf hmid
    split
    · exact hrun.congr rfl rfl rfl rfl fun _ hs => hs
    · exact hrun

theorem Turn.storeSection (h : Exclusive st) {grant : Option String}
    (hpc : (st.tasks t).pc = .storeMapping grant) (hs : storeSection st t grant answer = some st') :
    Turn st st' t written := by
  have hhalf : (st.tasks t).pc.half = .opaques := by rw [hpc]; rfl
  unfold StoreProtocol.storeSection at hs
  split at hs
  · rename_i result hresult
    cases hs
    have hout : st.inMutation t = false := by
      rw [inMutation_of_opaques hhalf, out_of_opaqueResult hresult]
    cases grant
    · exact .goto h (.refl st t) rfl hout
    · exact .goto h (.refl st t) rfl hout
  · obtain ⟨mid, hmid, rfl⟩ := Option.map_eq_some_iff.mp hs
    have hrun : Turn st mid t written := .runOpaques h hhalf hmid
    split
    · exact hrun.congr rfl rfl rfl rfl fun _ hs => hs
    · exact hrun

theorem Turn.purgeSection (h : Exclusive st) (hhalf : (st.tasks t).pc.half = .neither)
    (hin : (st.tasks t).pc.holds = true) (hs : purgeSection st t answer = some st') :
    Turn st st' t written := by
  have hin : st.inMutation t = true := (inMutation_of_neither hhalf).trans hin
  unfold StoreProtocol.purgeSection at hs
  split at hs <;> cases hs
  · exact .goto h (.setMemory hin _ _) rfl hin
  · exact .goto h (.setIndex st t _) rfl hin
  · exact .goto h (.refl st t) rfl hin
  · rename_i key keys drops hpc
    have hgoto : Turn st ((st.deleteRecord answer key).goto t (.purgeMapping key keys drops)) t
        written := .goto h (.deleteRecord st t answer key) rfl hin
    exact hgoto.congr rfl rfl rfl rfl fun _ hs => hs
  · rename_i key keys drops hpc
    have hgoto : Turn st ((st.deleteMapping answer key).goto t (.purgeToken keys drops)) t
        written := .goto h (.deleteMapping st t answer key) rfl hin
    exact hgoto.congr rfl rfl rfl rfl fun _ hs => hs
  · exact .finish h (.refl st t) hin
  · exact .goto h (.deleteInverse st t answer _ _) rfl hin

theorem Turn.loadTokenSection (h : Exclusive st) (hhalf : (st.tasks t).pc.half = .neither)
    (hin : (st.tasks t).pc.holds = true) (hs : loadTokenSection st t answer = some st') :
    Turn st st' t written := by
  have hin : st.inMutation t = true := (inMutation_of_neither hhalf).trans hin
  unfold StoreProtocol.loadTokenSection at hs
  split at hs
  · cases hs
    exact .goto h (.setMemory hin _ _) rfl hin
  · split at hs
    · cases hs
      exact .finish h (.refl st t) hin
    · cases hs
      exact .goto h (.refl st t) rfl hin
    · simp only at hs
      split at hs <;> cases hs <;> exact .goto h (.refl st t) rfl hin
  · cases hs
    exact .goto h (.deleteRecord st t answer _) rfl hin
  · cases hs

theorem Turn.loadMappingSection (h : Exclusive st) (hhalf : (st.tasks t).pc.half = .neither)
    (hin : (st.tasks t).pc.holds = true) (hs : loadMappingSection st t answer = some st') :
    Turn st st' t written := by
  have hin : st.inMutation t = true := (inMutation_of_neither hhalf).trans hin
  unfold StoreProtocol.loadMappingSection at hs
  split at hs
  · cases hs
    exact .goto h (.refl st t) rfl hin
  · cases hs
    exact .finish h (.setIndex st t _) hin
  · simp only at hs
    split at hs
    · cases hs
      exact .finish h (.refl st t) hin
    · cases hs
      exact .goto h (.refl st t) rfl hin
    · split at hs
      · cases hs
        exact .goto h (.refl st t) rfl hin
      · split at hs <;> cases hs <;> exact .goto h (.refl st t) rfl hin
  · rename_i dropped boot hpc
    cases hs
    have hgoto : Turn st ((st.deleteMapping answer dropped.sessionId).goto t
        (.loadDropInverse .access dropped.mapping boot)) t written :=
      .goto h (.deleteMapping st t answer dropped.sessionId) rfl hin
    exact hgoto.congr rfl rfl rfl rfl fun _ hs => hs
  · rename_i kind m boot hpc
    cases hs
    cases kind <;> exact .goto h (.deleteInverse st t answer _ _) rfl hin
  · cases hs

theorem Turn.run (h : Exclusive st) (hs : runSection st t answer = some st') :
    Turn st st' t (persisting st (.run t answer)) := by
  cases hpc : (st.tasks t).pc with
  | idle => simp [runSection, hpc] at hs
  | mint s ttl grant => simp [runSection, hpc] at hs
  | purgeScan => simp [runSection, hpc] at hs
  | granted r => simp [runSection, hpc] at hs
  | done => simp [runSection, hpc] at hs
  | removeTokenMapping => exact .removal h hpc hs
  | token | removeTokenRecord =>
    simp only [runSection, hpc] at hs
    exact .runTokens h (by rw [hpc]; rfl) hs
  | loginToken s expires =>
    have hhalf : (st.tasks t).pc.half = .tokens := by rw [hpc]; rfl
    simp only [runSection, hpc] at hs
    split at hs
    · cases hs
      exact .goto h (.refl st t) rfl
        ((inMutation_of_tokens hhalf).trans (out_of_tokenResult ‹_›))
    · exact .runTokens h hhalf hs
  | grantResolve r =>
    simp only [runSection, hpc] at hs
    exact .grantSection h hpc hs
  | grantToken r s =>
    have hhalf : (st.tasks t).pc.half = .tokens := by rw [hpc]; rfl
    simp only [runSection, hpc] at hs
    split at hs
    · cases hs
      exact .goto h (.refl st t) rfl
        ((inMutation_of_tokens hhalf).trans (out_of_tokenResult ‹_›))
    · cases hs
      have hstarted : Turn st ((st.startAt t (.removeLock s) (st.opaques.prior s)).goto t
          .removeMapping) t (persisting st (.run t answer)) :=
        .startAt h rfl ((inMutation_of_tokens hhalf).trans (out_of_tokenResult ‹_›))
      exact hstarted.congr rfl rfl rfl rfl fun _ hs => hs
    · exact .runTokens h hhalf hs
  | storeMapping grant =>
    simp only [runSection, hpc] at hs
    exact .storeSection h hpc hs
  | removeMapping =>
    simp only [runSection, hpc] at hs
    exact .runOpaques h (by rw [hpc]; rfl) hs
  | resolve kind token =>
    have hhalf : (st.tasks t).pc.half = .opaques := by rw [hpc]; rfl
    simp only [runSection, hpc] at hs
    split at hs
    · cases hs
      exact .goto h (.same rfl rfl rfl rfl rfl fun _ => rfl) rfl
        ((inMutation_of_opaques hhalf).trans (out_of_opaqueResult ‹_›))
    · exact .runOpaques h hhalf hs
  | removeToken s =>
    have hhalf : (st.tasks t).pc.half = .tokens := by rw [hpc]; rfl
    simp only [runSection, hpc] at hs
    split at hs
    · -- The lock is kept until the record is gone too.
      rename_i hbackend
      cases hs
      exact .startRemoval h hhalf (by rw [hbackend]; rfl) s _
    · exact .runTokens h hhalf hs
  | purgeLock | loadLock =>
    simp only [runSection, hpc] at hs
    exact .lockSection h rfl hs
  | loadKeys | loadMappingKeys =>
    simp only [runSection, hpc] at hs
    split at hs <;> cases hs
    exact .finish h (.refl st t) (by rw [inMutation_of_neither] <;> rw [hpc] <;> rfl)
  | purgeMemory keys | purgeIndex keys | purgeToken keys drops | purgeMapping key keys drops
  | purgeInverse drops =>
    simp only [runSection, hpc] at hs
    exact .purgeSection h (by rw [hpc]; rfl) (by rw [hpc]; rfl) hs
  | loadTokens keys entries | loadDropToken key keys entries =>
    simp only [runSection, hpc] at hs
    exact .loadTokenSection h (by rw [hpc]; rfl) (by rw [hpc]; rfl) hs
  | loadSnapshot keys | loadMappings boot | loadDropMapping dropped boot
  | loadDropInverse kind m boot =>
    simp only [runSection, hpc] at hs
    exact .loadMappingSection h (by rw [hpc]; rfl) (by rw [hpc]; rfl) hs

theorem Turn.listSection (h : Exclusive st) {keys : List String}
    (hs : listSection st t keys = some st') : Turn st st' t none := by
  have hin : ∀ pc, (st.tasks t).pc = pc → pc.half = .neither → pc.holds = true →
      st.inMutation t = true := fun pc hpc hhalf hholds => by
    rw [inMutation_of_neither (by rw [hpc, hhalf]), hpc, hholds]
  unfold StoreProtocol.listSection at hs
  split at hs
  · rename_i hpc
    split at hs
    · split at hs <;> cases hs
      · exact .finish h (.refl st t) (hin _ hpc rfl rfl)
      · exact .goto h (.refl st t) rfl (hin _ hpc rfl rfl)
    · cases hs
  · rename_i hpc
    split at hs <;> cases hs
    exact .goto h (.refl st t) rfl (hin _ hpc rfl rfl)
  · rename_i hpc
    split at hs <;> cases hs
    exact .goto h (.refl st t) rfl (hin _ hpc rfl rfl)
  · cases hs

theorem Turn.mintSection (h : Exclusive st) {a r : String}
    (hs : mintSection st t a r = some st') : Turn st st' t none := by
  simp only [StoreProtocol.mintSection] at hs
  split at hs
  · rename_i s ttl grant hpc
    split at hs <;> cases hs
    have hout : st.inMutation t = false := by
      rw [inMutation_of_neither (by rw [hpc]; rfl), hpc]
      rfl
    have hstarted : Turn st ((st.startAt t (.storeLock s a r ttl) (st.opaques.prior s)).goto t
        (.storeMapping grant)) t none := .startAt h rfl hout
    exact hstarted.congr rfl rfl rfl rfl fun _ hs => List.mem_insert_of_mem hs
  · cases hs

theorem Turn.begin (h : Exclusive st) (hpc : (st.tasks t).pc = .idle) (op : Op) :
    Turn st (op.begin st t) t none := by
  have hout : st.inMutation t = false := by
    rw [inMutation_of_neither (by rw [hpc]; rfl), hpc]
    rfl
  cases op with
  | getToken s => exact .startTokens h hout s .get rfl
  | peekToken s => exact .startTokens h hout s .peek rfl
  | storeToken s token => exact .startTokens h hout s (.store token) rfl
  | removeToken s => exact .startTokens h hout s .remove rfl
  | purgeExpired => exact .goto h (.refl st t) rfl hout
  | loadPersisted => exact .goto h (.refl st t) rfl hout
  | storeMapping s ttl => exact .goto h (.refl st t) rfl hout
  | removeMapping s => exact .startAt h rfl hout
  | resolve kind token => exact .startAt h rfl hout
  | login s token expires => exact .startTokens h hout s (.store token) rfl
  | refreshGrant r => exact .startAt h rfl hout

/-- A task that is called is nowhere yet. -/
theorem Exclusive.call (h : Exclusive st) (inst : Nat) (called : List Nat) :
    Exclusive { st with tasks := Function.update st.tasks t { inst := inst, pc := .idle }
                        called := called } := by
  have hidle : ∀ u, u = t → (Function.update st.tasks t { inst := inst, pc := .idle } u).pc =
      .idle := fun u hu => by rw [hu, Function.update_self]
  refine ⟨h.synced, fun u => ?_, fun u hin => ?_⟩
  · by_cases hu : u = t
    · exact placed_of_neither (by
        show (Function.update st.tasks t _ u).pc.half = _
        rw [hidle u hu]
        rfl)
    · have hplaced := h.placed u
      unfold State.Placed State.on at hplaced ⊢
      simp only [Function.update_of_ne hu]
      exact hplaced
  · by_cases hu : u = t
    · unfold State.inMutation at hin
      simp only [hidle u hu] at hin
      cases hin
    · have hheld := h.holder u
      unfold State.inMutation at hheld hin
      unfold State.mutationLock State.on at hheld ⊢
      simp only [Function.update_of_ne hu] at hin ⊢
      exact hheld hin

theorem Exclusive.step (h : Exclusive st) (hs : step st l = some st') : Exclusive st' := by
  cases l with
  | tick d unix =>
    cases hs
    exact ⟨h.synced, h.placed, h.holder⟩
  | call t inst op =>
    simp only [StoreProtocol.step] at hs
    split at hs <;> cases hs
    have hcalled := h.call (t := t) inst (t :: st.called)
    exact hcalled.turn (.begin hcalled (by simp) op)
  | run t answer => exact h.turn (.run h hs)
  | reply t response =>
    simp only [StoreProtocol.step, Option.ite_none_right_eq_some] at hs
    obtain ⟨tokens, hreply, rfl⟩ := Option.map_eq_some_iff.mp hs.2
    exact h.turn (.reply h hs.1 hreply)
  | list t keys => exact h.turn (.listSection h hs)
  | mint t a r => exact h.turn (.mintSection h hs)
  | lapse s =>
    simp only [StoreProtocol.step] at hs
    split at hs
    · split at hs <;> cases hs
      exact ⟨h.synced, h.placed, h.holder⟩
    · cases hs
  | lapseMapping s | lapseInverse kind token =>
    cases hs
    exact ⟨h.synced, h.placed, h.holder⟩

theorem exclusive_init (clock : Clock) (refreshConfig : Bool) :
    Exclusive (init clock refreshConfig) :=
  ⟨fun _ => rfl, fun _ => trivial, fun _ h => by cases h⟩

/-! ### The tasks there are -/

/-- A task that has not been called does nothing. -/
def Called (st : State) : Prop := ∀ t, t ∉ st.called → (st.tasks t).pc = .idle

theorem Called.mem (h : Called st) (hpc : (st.tasks t).pc ≠ .idle) : t ∈ st.called := by
  by_contra hnot
  exact hpc (h t hnot)

theorem Called.turn (h : Called st) (hturn : Turn st st' t written)
    (hpc : (st.tasks t).pc ≠ .idle) : Called st' := by
  intro u hu
  rw [hturn.records.called] at hu
  have hne : u ≠ t := fun heq => by
    rw [heq] at hu
    exact hu (h.mem hpc)
  rw [hturn.tasks u hne]
  exact h u hu

theorem Called.step (h : Called st) (hex : Exclusive st) (hs : step st l = some st') :
    Called st' := by
  cases l with
  | tick d unix =>
    cases hs
    exact h
  | call t inst op =>
    simp only [StoreProtocol.step] at hs
    split at hs <;> cases hs
    intro u hu
    have hcalled := hex.call (t := t) inst (t :: st.called)
    have hturn := Turn.begin (t := t) hcalled (by simp) op
    rw [hturn.records.called, List.mem_cons, not_or] at hu
    rw [hturn.tasks u hu.1]
    simpa [hu.1] using h u hu.2
  | run t answer =>
    refine h.turn (.run hex hs) fun hidle => ?_
    simp only [StoreProtocol.step, runSection, hidle] at hs
    cases hs
  | reply t response =>
    simp only [StoreProtocol.step, Option.ite_none_right_eq_some] at hs
    obtain ⟨tokens, -, rfl⟩ := Option.map_eq_some_iff.mp hs.2
    exact h
  | list t keys =>
    refine h.turn (.listSection hex hs) fun hidle => ?_
    simp only [StoreProtocol.step, StoreProtocol.listSection, hidle] at hs
    cases hs
  | mint t a r =>
    refine h.turn (.mintSection hex hs) fun hidle => ?_
    simp only [StoreProtocol.step, StoreProtocol.mintSection, hidle] at hs
    cases hs
  | lapse s =>
    simp only [StoreProtocol.step] at hs
    split at hs
    · split at hs <;> cases hs
      exact h
    · cases hs
  | lapseMapping s | lapseInverse kind token =>
    cases hs
    exact h

end Exclusive

end StoreProtocol
end McpFramework
