import McpFramework.Auth.StoreProtocol

/-!
# Auth — StoreFrame

What a section of the token store can do to the persisted records, to the tokens
in memory and to the mutation locks.

A record is written by the backend call of a `store_token` and by nothing else,
a token leaves the memory of an instance only under its mutation lock, and who is
in a section under that lock has it: this is all that the safety of a purge and
that of a boot go by.
-/

namespace McpFramework

open Lib

/-! ## One session -/

namespace TokenProtocol

section Records

variable {st st' : State} {t : Nat} {want : Want} {found : Option StoredToken} {answer : Answer}

/-- The record is left alone, or dropped, or the task has persisted its token. -/
def Persists (st st' : State) (t : Nat) (answer : Answer) : Prop :=
  st'.record = st.record ∨ st'.record = none ∨
    ∃ writer p, (st.tasks t).pc = .storeBackend writer p ∧ answer = .ok ∧ st'.record = some p

/-- A token in the memory of the task's instance stays one. -/
def Keeps (st st' : State) (t : Nat) : Prop :=
  (st.inst t).token.isSome = true → (st'.instances (st.tasks t).inst).token.isSome = true

theorem keeps_setInst {inst : Instance} (hinsts : st'.instances = (st.setInst t inst).instances)
    (htoken : inst.token.isSome = (st.inst t).token.isSome) : Keeps st st' t := by
  intro hsome
  rw [hinsts, State.setInst_instances, Function.update_self, htoken]
  exact hsome

theorem keeps_setToken {token : StoredToken}
    (hinsts : st'.instances = (st.setToken t (some token)).instances) : Keeps st st' t := by
  intro _
  rw [hinsts, State.setToken, State.setInst_instances, Function.update_self]
  rfl

theorem afterRaw_record : (afterRaw st t want found).record = st.record := by
  rcases afterRaw_cases st t want found with
    ⟨result, -, h⟩ | ⟨-, -, h⟩ | ⟨mutex, -, ⟨deadline, h⟩ | ⟨result, h⟩⟩ |
    ⟨r, -, ⟨token, refreshToken, -, -, h⟩ | h⟩ | ⟨r, -, ⟨result, h⟩ | ⟨-, h⟩⟩ <;> rw [h] <;> rfl

/-- `get_token_raw` and what follows it leave the tokens alone. -/
theorem afterRaw_token :
    ((afterRaw st t want found).instances (st.tasks t).inst).token = (st.inst t).token := by
  rcases afterRaw_cases st t want found with
    ⟨result, -, h⟩ | ⟨-, -, h⟩ | ⟨mutex, -, ⟨deadline, h⟩ | ⟨result, h⟩⟩ |
    ⟨r, -, ⟨token, refreshToken, -, -, h⟩ | h⟩ | ⟨r, -, ⟨result, h⟩ | ⟨-, h⟩⟩ <;> rw [h]
  · rfl
  · rfl
  · rfl
  · simp [State.goto, State.setTask, State.dropMutex, State.setInst]
  · rfl
  · rfl
  · rfl
  · simp [State.goto, State.setTask, State.dropMutex, State.setInst]

theorem runSection_persists (h : runSection st t answer = some st') :
    Persists st st' t answer := by
  cases hpc : (st.tasks t).pc with
  | storeBackend writer p =>
    simp only [runSection, hpc] at h
    cases answer <;> cases h
    · exact .inr (.inr ⟨writer, p, hpc, rfl, rfl⟩)
    · exact .inl rfl
  | removeBackend | purgeBackend =>
    simp only [runSection, hpc] at h
    cases answer <;> cases h
    · exact .inr (.inl rfl)
    · exact .inl rfl
  | rawRead want =>
    simp only [runSection, hpc] at h
    split at h <;> cases h
    · exact .inl afterRaw_record
    · exact .inl rfl
  | rawLoad want =>
    simp only [runSection, hpc] at h
    split at h <;> cases h
    · exact .inl rfl
    · exact .inl afterRaw_record
  | rawWriteBack want token =>
    simp only [runSection, hpc, Option.some.injEq] at h
    subst h
    exact .inl afterRaw_record
  | adoptLoad mutex poll =>
    simp only [runSection, hpc] at h
    split at h
    · cases h
      exact .inl rfl
    · split at h
      · split at h <;> cases h <;> exact .inl rfl
      · cases h
        exact .inl rfl
  | adoptWrite mutex poll token =>
    cases poll <;> simp only [runSection, hpc, Option.some.injEq] at h <;> subst h <;>
      exact .inl rfl
  | tryLock mutex deadline =>
    simp only [runSection, hpc] at h
    split at h
    · cases h
      exact .inl rfl
    · split at h <;> cases h <;> exact .inl rfl
  | storeMemory writer token p =>
    simp only [runSection, hpc, Option.some.injEq] at h
    subst h
    cases writer <;> exact .inl rfl
  | idle => simp [runSection, hpc] at h
  | awaitReply r refreshToken seen => simp [runSection, hpc] at h
  | done result => simp [runSection, hpc] at h
  | panicked => simp [runSection, hpc] at h
  | removeMemory | removeRefreshLock | purgeMemory | releaseDist r result =>
    simp only [runSection, hpc, Option.some.injEq] at h
    subst h
    exact .inl rfl
  | _ =>
    simp only [runSection, hpc] at h
    split at h <;> cases h <;> exact .inl rfl

/-- Outside the mutation lock a token may come into memory and none leaves it. -/
theorem runSection_keeps (hout : (st.tasks t).pc.inMutation = false)
    (h : runSection st t answer = some st') : Keeps st st' t := by
  cases hpc : (st.tasks t).pc with
  | idle => simp [runSection, hpc] at h
  | awaitReply r refreshToken seen => simp [runSection, hpc] at h
  | done result => simp [runSection, hpc] at h
  | panicked => simp [runSection, hpc] at h
  | storeMemory writer token p => simp [hpc, Pc.inMutation] at hout
  | storeBackend writer p => simp [hpc, Pc.inMutation] at hout
  | removeMemory => simp [hpc, Pc.inMutation] at hout
  | removeRefreshLock => simp [hpc, Pc.inMutation] at hout
  | removeBackend => simp [hpc, Pc.inMutation] at hout
  | purgeScan => simp [hpc, Pc.inMutation] at hout
  | purgeMemory => simp [hpc, Pc.inMutation] at hout
  | purgeBackend => simp [hpc, Pc.inMutation] at hout
  | rawRead want =>
    simp only [runSection, hpc] at h
    split at h <;> cases h
    · intro hsome
      rw [afterRaw_token]
      exact hsome
    · exact id
  | rawLoad want =>
    simp only [runSection, hpc] at h
    split at h <;> cases h
    · exact id
    · intro hsome
      rw [afterRaw_token]
      exact hsome
  | rawWriteBack want token =>
    -- A token that is there already is not overwritten.
    simp only [runSection, hpc, Option.some.injEq] at h
    subst h
    intro _
    rw [show (st.tasks t).inst =
      ((st.setToken t (some ((st.inst t).token.getD token))).tasks t).inst from rfl,
      afterRaw_token]
    simp [State.inst, State.setToken, State.setInst]
  | adoptWrite mutex poll token =>
    cases poll <;> simp only [runSection, hpc, Option.some.injEq] at h <;> subst h
    · intro _
      simp [State.goto, State.setTask, State.dropMutex, State.setInst, State.inst, State.setToken]
    · exact keeps_setToken rfl
  | adoptLoad mutex poll =>
    simp only [runSection, hpc] at h
    split at h
    · cases h
      exact id
    · split at h
      · split at h <;> cases h <;> exact id
      · cases h
        exact id
  | tryLock mutex deadline =>
    simp only [runSection, hpc] at h
    split at h
    · cases h
      exact id
    · split at h <;> cases h <;> exact id
  | getRefreshLock =>
    simp only [runSection, hpc] at h
    split at h <;> cases h
    · exact id
    · exact keeps_setInst rfl rfl
  | awaitRefreshLock mutex =>
    simp only [runSection, hpc] at h
    split at h <;> cases h
    exact keeps_setInst rfl rfl
  | send r refreshToken seen =>
    simp only [runSection, hpc] at h
    split at h <;> cases h <;> exact id
  | storeLock writer token =>
    simp only [runSection, hpc] at h
    split at h <;> cases h
    exact keeps_setInst rfl rfl
  | releaseDist r result =>
    simp only [runSection, hpc, Option.some.injEq] at h
    subst h
    exact keeps_setInst rfl rfl
  | removeLock | purgeLock =>
    simp only [runSection, hpc] at h
    split at h <;> cases h
    exact keeps_setInst rfl rfl

theorem replySection_frame {response : Option TokenResponse}
    (h : replySection st t response = some st') :
    st'.record = st.record ∧ st'.instances = st.instances := by
  obtain ⟨r, refreshToken, seen, -, ⟨newToken, -, rfl⟩ | ⟨-, rfl⟩⟩ := reply_cases h <;>
    exact ⟨rfl, rfl⟩

end Records

end TokenProtocol

/-! ## All sessions -/

namespace TokenSessions

open TokenProtocol (Answer Local)

section Frame

variable {st st' : State} {t : Nat} {s s' : String} {answer : Answer}
  {pc : Pc} {pc' : TokenProtocol.Pc} {new : TokenProtocol.State}

/-- A section touches its own task and instance only, and the mutation lock only
to take it or to give it back. -/
structure Frame (st st' : State) (t : Nat) : Prop where
  clock : st'.clock = st.clock
  tasks : ∀ u, u ≠ t → st'.tasks u = st.tasks u
  sameInst : (st'.tasks t).inst = (st.tasks t).inst
  instances : ∀ i, i ≠ (st.tasks t).inst → st'.instances i = st.instances i
  mutation : Moves (fun task : Task => task.pc.inMutation = true) t (st.tasks t) (st'.tasks t)
    (st.inst t).mutationLock (st'.instances (st.tasks t).inst).mutationLock

/-- The record of a session is left alone, or dropped, or the task has persisted
a token of the session. -/
def Persists (st st' : State) (t : Nat) (answer : Answer) (s : String) : Prop :=
  (st'.sessions s).record = (st.sessions s).record ∨ (st'.sessions s).record = none ∨
    ∃ writer p, (st.tasks t).pc = .on s (.storeBackend writer p) ∧ answer = .ok ∧
      (st'.sessions s).record = some p

/-- Tokens in the memory of the task's instance stay there. -/
def Keeps (st st' : State) (t : Nat) : Prop :=
  ∀ s, ((st.inst t).tokens.get? s).isSome = true →
    ((st'.instances (st.tasks t).inst).tokens.get? s).isSome = true

theorem instances_put : (st.put s t new).instances =
    Function.update st.instances (st.tasks t).inst
      ((st.inst t).put s (new.instances (st.tasks t).inst)) := rfl

theorem Frame.put (hpc : (st.tasks t).pc = .on s pc')
    (h : Local (st.view s) new t) : Frame st (st.put s t new) t := by
  have hview : (st.view s).tasks t = ⟨(st.tasks t).inst, pc'⟩ := by
    show (st.tasks t).view s = _
    simp [Task.view, hpc, Pc.view]
  have hmut := h.mutation
  rw [hview] at hmut
  refine ⟨rfl, fun u hu => ?_, ?_, fun i hi => ?_, ?_⟩
  · simp [State.put, State.goto, State.setTask, State.setInst, hu]
  · simp [State.put, State.goto, State.setTask, State.setInst]
  · rw [instances_put, Function.update_of_ne hi]
  · rw [instances_put, Function.update_self]
    have htask : ((st.put s t new).tasks t).pc = .on s (new.tasks t).pc := by
      simp [State.put, State.goto, State.setTask, State.setInst]
    have hlock : ((st.view s).inst t).mutationLock = (st.inst t).mutationLock := rfl
    rw [hlock] at hmut
    show Moves _ t _ _ _ (new.instances (st.tasks t).inst).mutationLock
    exact hmut.congr (by simp [hpc, Pc.inMutation]) (by simp [htask, Pc.inMutation])

theorem Frame.goto (hpc : pc.inMutation = (st.tasks t).pc.inMutation) :
    Frame st (st.goto t pc) t := by
  refine ⟨rfl, fun u hu => Function.update_of_ne hu .., ?_, fun _ _ => rfl, .stay ?_⟩
  · simp [State.goto, State.setTask]
  · simp [State.goto, State.setTask, hpc]

/-- The instance changes, and the task goes on. -/
theorem Frame.setInst {inst : Instance}
    (h : Moves (fun task : Task => task.pc.inMutation = true) t (st.tasks t)
      ⟨(st.tasks t).inst, pc⟩ (st.inst t).mutationLock inst.mutationLock) :
    Frame st ((st.setInst t inst).goto t pc) t := by
  refine ⟨rfl, fun u hu => Function.update_of_ne hu .., ?_, fun i hi => Function.update_of_ne hi ..,
    ?_⟩
  · simp [State.goto, State.setTask, State.setInst]
  · show Moves _ t _ _ _ ((Function.update st.instances (st.tasks t).inst inst) _).mutationLock
    rw [Function.update_self]
    simpa [State.goto, State.setTask, State.setInst] using h

theorem runSection_frame (h : runSection st t answer = some st') : Frame st st' t := by
  cases hpc : (st.tasks t).pc with
  | idle => simp [runSection, hpc] at h
  | purged => simp [runSection, hpc] at h
  | «on» s pc =>
    simp only [runSection, hpc] at h
    obtain ⟨new, hnew, rfl⟩ := Option.map_eq_some_iff.mp h
    exact .put hpc (TokenProtocol.runSection_local hnew)
  | purgeLock =>
    simp only [runSection, hpc] at h
    split at h <;> cases h
    refine .setInst ?_
    rw [‹(st.inst t).mutationLock = none›]
    exact .enter
  | purgeScan =>
    simp only [runSection, hpc] at h
    split at h <;> cases h
    · exact .setInst (.leave (by rw [hpc]; rfl) (by simp [Pc.inMutation]))
    · exact .goto (by rw [hpc]; rfl)
  | purgeMemory keys =>
    simp only [runSection, hpc, Option.some.injEq] at h
    subst h
    exact .setInst (.stay (by simp [hpc, Pc.inMutation]))
  | purgeBackend keys =>
    cases keys with
    | nil =>
      simp only [runSection, hpc, Option.some.injEq] at h
      subst h
      exact .setInst (.leave (by rw [hpc]; rfl) (by simp [Pc.inMutation]))
    | cons key keys =>
      simp only [runSection, hpc] at h
      have hgoto : Frame st (st.goto t (.purgeBackend keys)) t := .goto (by rw [hpc]; rfl)
      cases answer <;> cases h
      · exact { hgoto with }
      · exact hgoto

theorem replySection_frame {response : Option TokenResponse}
    (h : replySection st t response = some st') : Frame st st' t := by
  unfold replySection at h
  split at h
  · rename_i s pc hpc
    obtain ⟨new, hnew, rfl⟩ := Option.map_eq_some_iff.mp h
    exact .put hpc (TokenProtocol.replySection_local hnew)
  · cases h

/-- An operation stays on its session. -/
theorem runSection_session (h : runSection st t answer = some st') {pc : TokenProtocol.Pc}
    (hpc' : (st'.tasks t).pc = .on s pc) : ∃ pc', (st.tasks t).pc = .on s pc' := by
  have hgoto : ∀ (mid : State) pc, ((mid.goto t pc).tasks t).pc = pc := fun mid pc => by
    simp [State.goto, State.setTask]
  unfold runSection at h
  split at h
  · cases h
  · rename_i s' pc' hpc
    obtain ⟨new, -, rfl⟩ := Option.map_eq_some_iff.mp h
    have hs : ((st.put s' t new).tasks t).pc = .on s' (new.tasks t).pc := hgoto ..
    rw [hs] at hpc'
    cases hpc'
    exact ⟨pc', hpc⟩
  · simp only at h
    split at h <;> cases h
    rw [hgoto] at hpc'
    cases hpc'
  · simp only at h
    split at h <;> cases h <;> rw [hgoto] at hpc' <;> cases hpc'
  · cases h
    rw [hgoto] at hpc'
    cases hpc'
  · cases h
    rw [hgoto] at hpc'
    cases hpc'
  · simp only at h
    split at h <;> cases h
    · rw [State.deleteRecord, hgoto] at hpc'
      cases hpc'
    · rw [hgoto] at hpc'
      cases hpc'
  · cases h

theorem replySection_session {response : Option TokenResponse}
    (h : replySection st t response = some st') {pc : TokenProtocol.Pc}
    (hpc' : (st'.tasks t).pc = .on s pc) : ∃ pc', (st.tasks t).pc = .on s pc' := by
  unfold replySection at h
  split at h
  · rename_i s' pc' hpc
    obtain ⟨new, -, rfl⟩ := Option.map_eq_some_iff.mp h
    have hs : ((st.put s' t new).tasks t).pc = .on s' (new.tasks t).pc := by
      simp [State.put, State.goto, State.setTask]
    rw [hs] at hpc'
    cases hpc'
    exact ⟨pc', hpc⟩
  · cases h

theorem record_put_self : ((st.put s t new).sessions s).record = new.record := by
  simp [State.put]

theorem record_put_of_ne (hne : s' ≠ s) :
    ((st.put s t new).sessions s').record = (st.sessions s').record := by
  simp [State.put, hne]

theorem record_deleteRecord (st : State) (key : String) :
    ((st.deleteRecord key).sessions s).record = (st.sessions s).record ∨
      ((st.deleteRecord key).sessions s).record = none := by
  by_cases hs : s = key
  · subst hs
    exact .inr (by simp [State.deleteRecord])
  · exact .inl (by simp [State.deleteRecord, hs])

theorem runSection_persists (h : runSection st t answer = some st') (s : String) :
    Persists st st' t answer s := by
  cases hpc : (st.tasks t).pc with
  | idle => simp [runSection, hpc] at h
  | purged => simp [runSection, hpc] at h
  | «on» s' pc =>
    simp only [runSection, hpc] at h
    obtain ⟨new, hnew, rfl⟩ := Option.map_eq_some_iff.mp h
    by_cases hs : s = s'
    · subst hs
      have hview : ((st.view s).tasks t).pc = pc := by
        show (st.tasks t).pc.view s = pc
        simp [hpc, Pc.view]
      rcases TokenProtocol.runSection_persists hnew with
        hsame | hnone | ⟨writer, p, hwrite, hok, hsome⟩
      · exact .inl (record_put_self.trans hsame)
      · exact .inr (.inl (record_put_self.trans hnone))
      · rw [hview] at hwrite
        exact .inr (.inr ⟨writer, p, by rw [hpc, hwrite], hok, record_put_self.trans hsome⟩)
    · exact .inl (record_put_of_ne hs)
  | purgeLock =>
    simp only [runSection, hpc] at h
    split at h <;> cases h
    exact .inl rfl
  | purgeScan =>
    simp only [runSection, hpc] at h
    split at h <;> cases h <;> exact .inl rfl
  | purgeMemory keys =>
    simp only [runSection, hpc, Option.some.injEq] at h
    subst h
    exact .inl rfl
  | purgeBackend keys =>
    cases keys with
    | nil =>
      simp only [runSection, hpc, Option.some.injEq] at h
      subst h
      exact .inl rfl
    | cons key keys =>
      simp only [runSection, hpc] at h
      cases answer <;> cases h
      · rcases record_deleteRecord (s := s) (st.goto t (.purgeBackend keys)) key with hsame | hnone
        · exact .inl hsame
        · exact .inr (.inl hnone)
      · exact .inl rfl

theorem Keeps.put
    (h : TokenProtocol.Keeps (st.view s) new t) : Keeps st (st.put s t new) t := by
  intro s' hsome
  rw [instances_put, Function.update_self]
  show (((st.inst t).tokens.set s _).get? s').isSome = true
  rw [HashMap.get?_set]
  split
  · rename_i hs
    rw [hs] at hsome
    exact h hsome
  · exact hsome

/-- Outside the mutation lock no token leaves the memory. -/
theorem runSection_keeps (hout : (st.tasks t).pc.inMutation = false)
    (h : runSection st t answer = some st') : Keeps st st' t := by
  cases hpc : (st.tasks t).pc with
  | idle => simp [runSection, hpc] at h
  | purged => simp [runSection, hpc] at h
  | «on» s pc =>
    rw [hpc] at hout
    simp only [runSection, hpc] at h
    obtain ⟨new, hnew, rfl⟩ := Option.map_eq_some_iff.mp h
    refine .put (TokenProtocol.runSection_keeps ?_ hnew)
    show ((st.tasks t).pc.view s).inMutation = false
    simpa [hpc, Pc.view, Pc.inMutation] using hout
  | purgeLock =>
    simp only [runSection, hpc] at h
    split at h <;> cases h
    intro s hsome
    simpa [State.goto, State.setTask, State.setInst] using hsome
  | purgeScan => simp [hpc, Pc.inMutation] at hout
  | purgeMemory keys => simp [hpc, Pc.inMutation] at hout
  | purgeBackend keys => simp [hpc, Pc.inMutation] at hout

/-- The token endpoint's answer is news to its task only. -/
theorem replySection_keeps {response : Option TokenResponse}
    (h : replySection st t response = some st') :
    Keeps st st' t ∧ ∀ s, (st'.sessions s).record = (st.sessions s).record := by
  unfold replySection at h
  split at h
  · rename_i s pc hpc
    obtain ⟨new, hnew, rfl⟩ := Option.map_eq_some_iff.mp h
    obtain ⟨hrecord, hinsts⟩ := TokenProtocol.replySection_frame hnew
    refine ⟨.put fun hsome => ?_, fun s' => ?_⟩
    · rw [hinsts]
      exact hsome
    · by_cases hs : s' = s
      · subst hs
        exact record_put_self.trans hrecord
      · exact record_put_of_ne hs
  · cases h

end Frame

end TokenSessions

/-! ## The whole store -/

/-- What has expired stays so while the system clock goes on. -/
theorem PersistedToken.isExpired_later {clock clock' : Clock} {p : PersistedToken}
    (hunix : clock.unix ≤ clock'.unix) (h : (p.intoStored clock).isExpired clock.now = true) :
    (p.intoStored clock').isExpired clock'.now = true := by
  have hmillis : Duration.asMillis64 clock.unix ≤ Duration.asMillis64 clock'.unix := by
    have := Nat.div_le_div_right (c := 1000000) hunix
    unfold Duration.asMillis64
    omega
  unfold PersistedToken.intoStored StoredToken.isExpired at h ⊢
  cases hdeadline : p.expiresAtUnixMs with
  | some deadline =>
    have hleft : remainingUntilUnixMillis clock' deadline ≤
        remainingUntilUnixMillis clock deadline := by
      unfold remainingUntilUnixMillis Duration.fromMillis
      omega
    simp only [hdeadline, decide_eq_true_eq] at h ⊢
    omega
  | none =>
    cases hsecs : p.expiresInSecs with
    | none => simp [hdeadline, hsecs] at h
    | some secs =>
      simp only [hdeadline, hsecs, Option.map_some, decide_eq_true_eq] at h ⊢
      omega

/-- A record that is live is so on every earlier clock. -/
theorem PersistedToken.live_of_later {clock clock' : Clock} {p : PersistedToken}
    (hunix : clock.unix ≤ clock'.unix) (h : p.live clock' = true) : p.live clock = true := by
  simp only [PersistedToken.live, TokenStore.purgeable, Bool.not_eq_true', Bool.and_eq_false_iff]
    at h ⊢
  rcases h with hfresh | hrefresh
  · refine .inl ?_
    by_contra hexpired
    rw [isExpired_later hunix (by simpa using hexpired)] at hfresh
    cases hfresh
  · exact .inr hrefresh

namespace StoreProtocol

open TokenProtocol (Answer)

/-- The record that a step persists. -/
def persisting (st : State) : Label → Option (String × PersistedToken)
  | .run t .ok =>
    match (st.tokens.tasks t).pc with
    | .on sessionId (.storeBackend _ p) => some (sessionId, p)
    | _ => none
  | _ => none

section Frame

variable {st st' mid : State} {t : Nat} {s : String} {answer : Answer} {l : Label}

/-! ### Records -/

theorem record_of_runTokens (h : runTokens st t answer = some st') (s : String) :
    st'.record s = st.record s ∨ st'.record s = none ∨
      ∃ p, persisting st (.run t answer) = some (s, p) ∧ st'.record s = some p := by
  obtain ⟨tokens, hrun, rfl⟩ := Option.map_eq_some_iff.mp h
  rcases TokenSessions.runSection_persists hrun s with hsame | hnone | ⟨writer, p, hpc, rfl, hp⟩
  · exact .inl hsame
  · exact .inr (.inl hnone)
  · exact .inr (.inr ⟨p, by simp only [persisting, hpc], hp⟩)

/-- A section of the token half makes a record live only by persisting it. -/
theorem live_of_runTokens (h : runTokens st t answer = some st') (hlive : st'.live s = true) :
    st.live s = true ∨
      ∃ p, persisting st (.run t answer) = some (s, p) ∧ p.live st.clock = true := by
  have hclock : st'.clock = st.clock := by
    obtain ⟨tokens, hrun, rfl⟩ := Option.map_eq_some_iff.mp h
    exact (TokenSessions.runSection_frame hrun).clock
  unfold State.live at hlive ⊢
  rw [hclock] at hlive
  rcases record_of_runTokens h s with hsame | hnone | ⟨p, hwrite, hp⟩
  · rw [hsame] at hlive
    exact .inl hlive
  · rw [hnone] at hlive
    cases hlive
  · rw [hp] at hlive
    exact .inr ⟨p, hwrite, by simpa using hlive⟩

theorem live_of_deleteRecord {key : String}
    (hlive : State.live { st with tokens := st.tokens.deleteRecord key } s = true) :
    st.live s = true := by
  unfold State.live at hlive ⊢
  rcases TokenSessions.record_deleteRecord (s := s) st.tokens key with hsame | hnone
  · rw [show State.record { st with tokens := st.tokens.deleteRecord key } s = st.record s
      from hsame] at hlive
    exact hlive
  · rw [show State.record { st with tokens := st.tokens.deleteRecord key } s = none
      from hnone] at hlive
    cases hlive

theorem live_of_dropRecord {key : String} (hlive : (st.deleteRecord answer key).live s = true) :
    st.live s = true := by
  unfold State.deleteRecord at hlive
  split at hlive
  · exact live_of_deleteRecord hlive
  · exact hlive

theorem live_of_tick {clock : Clock} (hunix : st.clock.unix ≤ clock.unix)
    (hlive : State.live { st with tokens := { st.tokens with clock := clock }
                                  opaques := { st.opaques with clock := clock } } s = true) :
    st.live s = true := by
  obtain ⟨p, hp, hlive⟩ := (Option.any_eq_true _ _).mp hlive
  exact (Option.any_eq_true _ _).mpr ⟨p, hp, PersistedToken.live_of_later hunix hlive⟩

/-- The token endpoint's answer makes no record live. -/
theorem live_of_reply {response : Option TokenResponse} {tokens : TokenSessions.State}
    (h : TokenSessions.replySection st.tokens t response = some tokens) :
    (st.putTokens t tokens).live = st.live := by
  have hclock := (TokenSessions.replySection_frame h).clock
  have hrecord := (TokenSessions.replySection_keeps h).2
  funext s
  show (tokens.sessions s).record.any (PersistedToken.live tokens.clock) = st.live s
  rw [hrecord, hclock]
  rfl

end Frame

end StoreProtocol

end McpFramework
