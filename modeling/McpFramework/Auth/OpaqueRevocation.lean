import McpFramework.Auth.OpaqueProtocol

/-!
# Auth — OpaqueRevocation

When the rotation and the removal of opaque tokens are final.

In the backend they are: the forward mapping a rotation ends is overwritten or
deleted before it returns, and nothing writes it again. In memory they are as
long as no resolve puts a mapping into the index that a rotation or removal on
the same instance has already taken out of it (`current`): `hydrate_opaque` does
not take the mutation lock and inserts what it read some awaits ago.
-/

namespace McpFramework.OpaqueProtocol

open Lib

/-- The backend answers every call. -/
def reliable (_ : State) : Label → Bool
  | .run _ reply => decide (reply = .ok)
  | _ => true

/-- A resolve puts into its instance's index no mapping whose issue a rotation
or removal of the session has already taken out of this index. -/
def current (st : State) : Label → Bool
  | .run t _ =>
    match (st.tasks t).pc with
    | .hydrate sessionId mapping =>
      !(st.inst t).superseded.contains (sessionId, mapping.issue)
    | _ => true
  | _ => true

namespace Revocation

/-! ## What operations carry -/

/-- The mapping a store puts, with its session. -/
def stores : Pc → Option (String × PersistedOpaqueMapping)
  | .storeIndex sessionId mapping => some (sessionId, mapping)
  | .storeForward sessionId mapping _ => some (sessionId, mapping)
  | .storeInverse _ sessionId mapping _ => some (sessionId, mapping)
  | _ => none

/-- The session a rotation or removal is of. -/
def ends : Pc → Option String
  | .storeLock sessionId _ _ _ => some sessionId
  | .storeIndex sessionId _ => some sessionId
  | .storeForward sessionId _ _ => some sessionId
  | .storeInverse _ sessionId _ _ => some sessionId
  | .storeDrop _ sessionId _ => some sessionId
  | .removeLock sessionId => some sessionId
  | .removeIndex sessionId => some sessionId
  | .removeLookup sessionId => some sessionId
  | .removeForward sessionId _ => some sessionId
  | .removeDrop _ sessionId _ => some sessionId
  | _ => none

/-- It has updated the index. -/
def indexed : Pc → Bool
  | .storeForward _ _ _ => true
  | .storeInverse _ _ _ _ => true
  | .storeDrop _ _ _ => true
  | .removeLookup _ => true
  | .removeForward _ _ => true
  | .removeDrop _ _ _ => true
  | _ => false

/-- It has updated the forward mapping. -/
def forwarded : Pc → Bool
  | .storeInverse _ _ _ _ => true
  | .storeDrop _ _ _ => true
  | .removeDrop _ _ _ => true
  | _ => false

/-- A resolve on its way through the backend. -/
def loading : Pc → Bool
  | .loadInverse _ _ => true
  | .loadMapping _ _ _ => true
  | _ => false

def finished : Pc → Bool
  | .done _ => true
  | _ => false

abbrev Forward := String → Option PersistedOpaqueMapping

/-- What holds of task `t`: a rotation or removal ends issues of its session
only, none of which the index or the forward mapping has after it updated them,
and a resolve is on its way to a mapping it is not barred from. -/
structure TaskOk (returned revoked superseded : List Issue) (forward : Forward) (t : Nat)
    (task : Task) : Prop where
  stores : ∀ s m, stores task.pc = some (s, m) → m.issue = t
  session : ∀ s, ends task.pc = some s → ∀ e ∈ task.prior, e.1 = s
  prior : ∀ e ∈ task.prior, e ∈ returned
  indexed : indexed task.pc = true → ∀ e ∈ task.prior, e ∈ superseded
  forwarded : forwarded task.pc = true → ∀ s m, forward s = some m → (s, m.issue) ∉ task.prior
  loading : loading task.pc = true → ∀ e ∈ task.barred, e ∈ revoked
  hydrate : ∀ s m, task.pc = .hydrate s m → (s, m.issue) ∉ task.barred

/-- What holds of an instance: its index has nothing that was taken out of it. -/
structure InstOk (returned revoked : List Issue) (inst : Instance) : Prop where
  superseded : ∀ e ∈ inst.superseded, e ∈ returned
  dead : ∀ e ∈ inst.dead, e ∈ inst.superseded ∧ e ∈ revoked
  consistent : inst.index.Consistent
  index : ∀ s m, inst.index.sessionToOpaques s = some m → (s, m.issue) ∉ inst.superseded

structure Inv (st : State) : Prop where
  returned : ∀ e ∈ st.returned, finished (st.tasks e.2).pc = true
  revoked : ∀ e ∈ st.revoked, e ∈ st.returned
  forward : ∀ s m, st.forward s = some m → (s, m.issue) ∉ st.revoked
  instances : ∀ i, InstOk st.returned st.revoked (st.instances i)
  tasks : ∀ t, TaskOk st.returned st.revoked (st.inst t).superseded st.forward t (st.tasks t)
  breached : st.breached = false

variable {st st' : State} {t : Nat} {pc : Pc} {task : Task}
  {returned returned' revoked revoked' superseded superseded' : List Issue}
  {forward forward' : Forward} {inst : Instance}

theorem TaskOk.mono (h : TaskOk returned revoked superseded forward t task)
    (hret : ∀ e ∈ returned, e ∈ returned') (hrev : ∀ e ∈ revoked, e ∈ revoked')
    (hsup : ∀ e ∈ superseded, e ∈ superseded')
    (hfor : ∀ s m, forward' s = some m → forward s = some m ∨ (s, m.issue) ∉ returned) :
    TaskOk returned' revoked' superseded' forward' t task := by
  refine ⟨h.stores, h.session, fun e he => hret e (h.prior e he),
    fun hp e he => hsup e (h.indexed hp e he), fun hp s m hm hmem => ?_,
    fun hp e he => hrev e (h.loading hp e he), h.hydrate⟩
  rcases hfor s m hm with hold | hnew
  · exact h.forwarded hp s m hold hmem
  · exact hnew (h.prior _ hmem)

theorem InstOk.mono (h : InstOk returned revoked inst) (hret : ∀ e ∈ returned, e ∈ returned')
    (hrev : ∀ e ∈ revoked, e ∈ revoked') : InstOk returned' revoked' inst :=
  ⟨fun e he => hret e (h.superseded e he),
    fun e he => ⟨(h.dead e he).1, hrev e (h.dead e he).2⟩, h.consistent, h.index⟩

/-! ## Changes of the state -/

/-- Whoever still runs has not returned. -/
theorem Inv.not_returned (hi : Inv st) (hrun : finished (st.tasks t).pc = false) (s : String) :
    (s, t) ∉ st.returned := by
  intro h
  have hdone := hi.returned _ h
  rw [hrun] at hdone
  cases hdone

/-- An operation moves on. -/
theorem Inv.setTask (hi : Inv st) (hrun : finished (st.tasks t).pc = false)
    (htask : TaskOk st.returned st.revoked (st.instances task.inst).superseded st.forward t
      task) : Inv (st.setTask t task) := by
  refine ⟨fun e he => ?_, hi.revoked, hi.forward, hi.instances, ?_, hi.breached⟩
  · have hne : e.2 ≠ t := by
      rintro rfl
      exact hi.not_returned hrun e.1 he
    show finished (Function.update st.tasks t task e.2).pc = true
    rw [Function.update_of_ne hne]
    exact hi.returned e he
  · exact (forall_update_iff (P := fun u (task : Task) =>
      TaskOk st.returned st.revoked (st.instances task.inst).superseded st.forward u task)).mpr
      ⟨htask, fun u _ => hi.tasks u⟩

/-- An operation moves on with what it carries. -/
theorem Inv.advance (hi : Inv st) (hrun : finished (st.tasks t).pc = false)
    (hstores : ∀ s m, stores pc = some (s, m) → m.issue = t)
    (hends : ∀ s, ends pc = some s → ends (st.tasks t).pc = some s)
    (hindexed : indexed pc = true → ∀ e ∈ (st.tasks t).prior, e ∈ (st.inst t).superseded)
    (hforwarded : forwarded pc = true →
      ∀ s m, st.forward s = some m → (s, m.issue) ∉ (st.tasks t).prior)
    (hloading : loading pc = true → loading (st.tasks t).pc = true)
    (hhydrate : ∀ s m, pc = .hydrate s m → (s, m.issue) ∉ (st.tasks t).barred) :
    Inv (st.goto t pc) := by
  have htask := hi.tasks t
  exact hi.setTask hrun ⟨hstores, fun s hs => htask.session s (hends s hs), htask.prior,
    hindexed, hforwarded, fun h => htask.loading (hloading h), hhydrate⟩

/-- It moves on within one stage of a rotation or removal. -/
theorem Inv.goto (hi : Inv st) (hrun : finished (st.tasks t).pc = false)
    (hstores : ∀ s m, stores pc = some (s, m) → m.issue = t)
    (hends : ∀ s, ends pc = some s → ends (st.tasks t).pc = some s)
    (hindexed : indexed pc = true → indexed (st.tasks t).pc = true)
    (hforwarded : forwarded pc = true → forwarded (st.tasks t).pc = true)
    (hloading : loading pc = false) (hhydrate : ∀ s m, pc ≠ .hydrate s m) :
    Inv (st.goto t pc) :=
  hi.advance hrun hstores hends (fun h => (hi.tasks t).indexed (hindexed h))
    (fun h => (hi.tasks t).forwarded (hforwarded h)) (fun h => by rw [hloading] at h; cases h)
    (fun s m h => absurd h (hhydrate s m))

/-- It is done with its session. -/
theorem Inv.goto_plain (hi : Inv st) (hrun : finished (st.tasks t).pc = false)
    (hstores : stores pc = none) (hends : ends pc = none) (hindexed : indexed pc = false)
    (hforwarded : forwarded pc = false) (hloading : loading pc = false)
    (hhydrate : ∀ s m, pc ≠ .hydrate s m) : Inv (st.goto t pc) :=
  hi.goto hrun (by simp [hstores]) (by simp [hends]) (by simp [hindexed]) (by simp [hforwarded])
    hloading hhydrate

/-- The operation's instance changes; what was taken out of its index stays
out. -/
theorem Inv.setInst (hi : Inv st) (hinst : InstOk st.returned st.revoked inst)
    (hsup : ∀ e ∈ (st.inst t).superseded, e ∈ inst.superseded) : Inv (st.setInst t inst) := by
  refine ⟨hi.returned, hi.revoked, hi.forward, ?_, fun u => ?_, hi.breached⟩
  · exact (forall_update_iff (P := fun _ (inst : Instance) =>
      InstOk st.returned st.revoked inst)).mpr ⟨hinst, fun i _ => hi.instances i⟩
  · refine (hi.tasks u).mono (fun _ h => h) (fun _ h => h) ?_ (fun _ _ h => .inl h)
    intro e he
    show e ∈ (Function.update st.instances (st.tasks t).inst inst (st.tasks u).inst).superseded
    by_cases hu : (st.tasks u).inst = (st.tasks t).inst
    · rw [hu, Function.update_self]
      exact hsup e (by rw [State.inst, ← hu]; exact he)
    · rw [Function.update_of_ne hu]
      exact he

theorem Inv.mine (hi : Inv st) (t : Nat) : InstOk st.returned st.revoked (st.inst t) :=
  hi.instances (st.tasks t).inst

/-- The instance's index loses bindings or gets a mapping that was not taken out
of it. -/
theorem Inv.setIndex (hi : Inv st) {index : OpaqueIndex} (hcons : index.Consistent)
    (hindex : ∀ s m, index.sessionToOpaques s = some m →
      (s, m.issue) ∉ (st.inst t).superseded) (lock : Option Nat) :
    Inv (st.setInst t { st.inst t with index := index, mutationLock := lock }) :=
  hi.setInst ⟨(hi.mine t).superseded, (hi.mine t).dead, hcons, hindex⟩ (fun _ h => h)

theorem Inv.setLock (hi : Inv st) (lock : Option Nat) :
    Inv (st.setInst t { st.inst t with mutationLock := lock }) :=
  hi.setIndex (hi.mine t).consistent (hi.mine t).index lock

theorem Inv.setInverse (hi : Inv st) (kind : OpaqueKind) (token : String)
    (sessionId : Option String) : Inv (st.setInverse kind token sessionId) :=
  ⟨hi.returned, hi.revoked, hi.forward, hi.instances, hi.tasks, hi.breached⟩

/-- The forward mapping is deleted, or replaced by one whose store has not
returned. -/
theorem Inv.setForward (hi : Inv st) {s : String} {mapping : Option PersistedOpaqueMapping}
    (hnew : ∀ m, mapping = some m → (s, m.issue) ∉ st.returned) :
    Inv (st.setForward s mapping) := by
  have hcases : ∀ s' m, Function.update st.forward s mapping s' = some m →
      st.forward s' = some m ∨ (s', m.issue) ∉ st.returned := by
    intro s' m hm
    by_cases hs : s' = s
    · subst hs
      rw [Function.update_self] at hm
      exact .inr (hnew m hm)
    · rw [Function.update_of_ne hs] at hm
      exact .inl hm
  refine ⟨hi.returned, hi.revoked, fun s' m hm hmem => ?_, hi.instances, fun u => ?_, hi.breached⟩
  · rcases hcases s' m hm with hold | hnot
    · exact hi.forward s' m hold hmem
    · exact hnot (hi.revoked _ hmem)
  · exact (hi.tasks u).mono (fun _ h => h) (fun _ h => h) (fun _ h => h) hcases

/-- A rotation or removal takes what it ends out of the index. -/
theorem Inv.supersede (hi : Inv st) {s : String} {index : OpaqueIndex}
    (hends : ends (st.tasks t).pc = some s) (hcons : index.Consistent)
    (hself : ∀ m, index.sessionToOpaques s = some m → (s, m.issue) ∉ st.returned)
    (hother : ∀ s', s' ≠ s →
      index.sessionToOpaques s' = (st.inst t).index.sessionToOpaques s') :
    Inv (supersede st t index) := by
  have htask := hi.tasks t
  have hinst := hi.mine t
  refine hi.setInst ⟨?_, ?_, hcons, ?_⟩ (fun e he => List.mem_append_right _ he)
  · intro e he
    rcases List.mem_append.mp he with he | he
    · exact htask.prior e he
    · exact hinst.superseded e he
  · intro e he
    exact ⟨List.mem_append_right _ (hinst.dead e he).1, (hinst.dead e he).2⟩
  · intro s' m hm hmem
    by_cases hs : s' = s
    · subst hs
      rcases List.mem_append.mp hmem with hmem | hmem
      · exact hself m hm (htask.prior _ hmem)
      · exact hself m hm (hinst.superseded _ hmem)
    · rcases List.mem_append.mp hmem with hmem | hmem
      · exact hs (htask.session s hends _ hmem)
      · rw [hother s' hs] at hm
        exact hinst.index s' m hm hmem

/-- A rotation or removal returns. -/
theorem Inv.finish (hi : Inv st) (hindexed : indexed (st.tasks t).pc = true)
    (hforward : ∀ s m, st.forward s = some m → (s, m.issue) ∉ (st.tasks t).prior)
    {stored : List Issue} (hstored : ∀ e ∈ stored, e.2 = t) : Inv (finish st t stored) := by
  have htask := hi.tasks t
  have hinst := hi.mine t
  have hret : ∀ e ∈ st.returned, e ∈ stored ++ st.returned :=
    fun e he => List.mem_append_right _ he
  have hrev : ∀ e ∈ st.revoked, e ∈ (st.tasks t).prior ++ st.revoked :=
    fun e he => List.mem_append_right _ he
  refine ⟨fun e he => ?_, fun e he => ?_, fun s m hm hmem => ?_, ?_, ?_, hi.breached⟩
  · show finished (Function.update st.tasks t { st.tasks t with pc := .done none } e.2).pc = true
    by_cases he' : e.2 = t
    · rw [he', Function.update_self]
      rfl
    · rw [Function.update_of_ne he']
      rcases List.mem_append.mp he with he | he
      · exact absurd (hstored e he) he'
      · exact hi.returned e he
  · rcases List.mem_append.mp he with he | he
    · exact hret e (htask.prior e he)
    · exact hret e (hi.revoked e he)
  · rcases List.mem_append.mp hmem with hmem | hmem
    · exact hforward s m hm hmem
    · exact hi.forward s m hm hmem
  · refine (forall_update_iff (P := fun _ (inst : Instance) =>
      InstOk (stored ++ st.returned) ((st.tasks t).prior ++ st.revoked) inst)).mpr
      ⟨⟨fun e he => hret e (hinst.superseded e he), fun e he => ?_, hinst.consistent,
        hinst.index⟩, fun i _ => (hi.instances i).mono hret hrev⟩
    -- What the operation ends was superseded on its instance when it got to the index.
    rcases List.mem_append.mp he with he | he
    · exact ⟨htask.indexed hindexed e he, List.mem_append_left _ he⟩
    · exact ⟨(hinst.dead e he).1, hrev e (hinst.dead e he).2⟩
  · have hsup : ∀ i, (Function.update st.instances (st.tasks t).inst
        { st.inst t with mutationLock := none, dead := (st.tasks t).prior ++ (st.inst t).dead }
        i).superseded = (st.instances i).superseded :=
      (forall_update_iff (P := fun i (inst : Instance) =>
        inst.superseded = (st.instances i).superseded)).mpr ⟨rfl, fun _ _ => rfl⟩
    refine (forall_update_iff (P := fun u (task : Task) =>
      TaskOk (stored ++ st.returned) ((st.tasks t).prior ++ st.revoked)
        (Function.update st.instances (st.tasks t).inst
          { st.inst t with mutationLock := none, dead := (st.tasks t).prior ++ (st.inst t).dead }
          task.inst).superseded st.forward u task)).mpr ⟨?_, fun u _ => ?_⟩
    · exact ⟨by simp [stores], by simp [ends], fun e he => hret e (htask.prior e he),
        by simp [indexed], by simp [forwarded], by simp [loading], by simp⟩
    · rw [hsup]
      exact (hi.tasks u).mono hret hrev (fun _ h => h) (fun _ _ h => .inl h)

/-- A resolve answers for a mapping it is not barred from. -/
theorem Inv.answer (hi : Inv st) (hrun : finished (st.tasks t).pc = false) {barred : List Issue}
    {s : String} {issue : Nat} (hnot : (s, issue) ∉ barred) : Inv (answer st t barred s issue) := by
  have h : Inv (st.goto t (.done (some s))) := hi.goto_plain hrun rfl rfl rfl rfl rfl (by simp)
  exact ⟨h.returned, h.revoked, h.forward, h.instances, h.tasks,
    by simp [OpaqueProtocol.answer, hi.breached, hnot]⟩

/-- Once the forward mapping is written, nothing the operation ends is there. -/
theorem Inv.forward_clean (hi : Inv st) {s : String} {mapping : Option PersistedOpaqueMapping}
    (hends : ends (st.tasks t).pc = some s)
    (hnew : ∀ m, mapping = some m → (s, m.issue) ∉ st.returned) (s' : String)
    (m : PersistedOpaqueMapping) (hm : (st.setForward s mapping).forward s' = some m) :
    (s', m.issue) ∉ (st.tasks t).prior := by
  intro hmem
  have hs : s' = s := (hi.tasks t).session s hends _ hmem
  subst hs
  have hm : Function.update st.forward s' mapping s' = some m := hm
  rw [Function.update_self] at hm
  exact hnew m hm ((hi.tasks t).prior _ hmem)

theorem supersede_inst (st : State) (t : Nat) (index : OpaqueIndex) :
    (supersede st t index).inst t =
      { st.inst t with index := index,
                       superseded := (st.tasks t).prior ++ (st.inst t).superseded } := by
  show Function.update st.instances (st.tasks t).inst _ (st.tasks t).inst = _
  rw [Function.update_self]

theorem lockMutation_eq_some (h : lockMutation st t pc = some st') :
    st' = (st.setInst t { st.inst t with mutationLock := some t }).goto t pc := by
  unfold lockMutation at h
  split at h
  · exact (Option.some.inj h).symm
  · cases h

/-! ## One section at a time -/

theorem Inv.storeIndex (hi : Inv st) {s : String} {m : PersistedOpaqueMapping}
    (hpc : (st.tasks t).pc = .storeIndex s m) :
    Inv ((OpaqueProtocol.supersede st t
      (((st.inst t).index.removeSession s).1.insert st.clock s m)).goto t
      (.storeForward s m ((st.inst t).index.removeSession s).2)) := by
  have hrun : finished (st.tasks t).pc = false := by rw [hpc]; rfl
  have hissue : m.issue = t := (hi.tasks t).stores s m (by rw [hpc]; rfl)
  have hsessions := OpaqueIndex.insert_sessions ((st.inst t).index.removeSession s).1 st.clock s m
  rw [OpaqueIndex.removeSession_sessions] at hsessions
  have hnew : Inv (OpaqueProtocol.supersede st t
      (((st.inst t).index.removeSession s).1.insert st.clock s m)) := by
    refine hi.supersede (s := s) (by rw [hpc]; rfl)
      (((hi.mine t).consistent.removeSession s).insert st.clock s m) ?_ ?_
    · intro m' hm
      rcases hsessions with h | h <;> rw [h, Function.update_self] at hm
      · cases hm
      · cases hm
        rw [hissue]
        exact hi.not_returned hrun s
    · intro s' hs
      rcases hsessions with h | h <;> simp [h, Function.update_of_ne hs]
  have hends : ends (st.tasks t).pc = some s := by rw [hpc]; rfl
  refine hnew.advance hrun ?_ ?_ ?_ (by simp [forwarded]) (by simp [loading]) (by simp)
  · intro s' m' h
    cases h
    exact hissue
  · intro s' h
    cases h
    exact hends
  · intro _ e he
    rw [supersede_inst]
    exact List.mem_append_left _ he

theorem Inv.removeIndex (hi : Inv st) {s : String} (hpc : (st.tasks t).pc = .removeIndex s)
    (hends' : ends pc = some s) (hstores : stores pc = none) (hforwarded : forwarded pc = false)
    (hloading : loading pc = false) (hhydrate : ∀ s m, pc ≠ .hydrate s m) :
    Inv ((OpaqueProtocol.supersede st t ((st.inst t).index.removeSession s).1).goto t pc) := by
  have hrun : finished (st.tasks t).pc = false := by rw [hpc]; rfl
  have hends : ends (st.tasks t).pc = some s := by rw [hpc]; rfl
  have hsessions := OpaqueIndex.removeSession_sessions (st.inst t).index s
  have hnew : Inv (OpaqueProtocol.supersede st t ((st.inst t).index.removeSession s).1) := by
    refine hi.supersede hends ((hi.mine t).consistent.removeSession s) ?_ ?_
    · intro m hm
      rw [hsessions, Function.update_self] at hm
      cases hm
    · intro s' hs
      rw [hsessions, Function.update_of_ne hs]
  refine hnew.advance hrun (by simp [hstores]) ?_ ?_ (by simp [hforwarded]) (by simp [hloading])
    (fun s m h => absurd h (hhydrate s m))
  · intro s' h
    rw [hends'] at h
    exact hends.trans h
  · intro _ e he
    rw [supersede_inst]
    exact List.mem_append_left _ he

theorem Inv.lookup (hi : Inv st) {kind : OpaqueKind} {token : String}
    (hpc : (st.tasks t).pc = .lookup kind token) : Inv (lookupSection st t kind token) := by
  have hrun : finished (st.tasks t).pc = false := by rw [hpc]; rfl
  have hinst := hi.mine t
  unfold lookupSection
  cases hb : (st.inst t).index.toSession kind token with
  | none =>
    refine hi.setTask hrun ⟨by simp [stores], by simp [ends], (hi.tasks t).prior,
      by simp [indexed], by simp [forwarded], fun _ e he => ?_, by simp⟩
    rcases List.mem_append.mp he with he | he
    · exact (hinst.dead e he).2
    · exact (List.mem_filter.mp he).1
  | some b =>
    dsimp only
    split
    · -- The index has nothing that is dead, and it has this session.
      obtain ⟨m, hm, -, hissue⟩ := hinst.consistent kind token b hb
      refine hi.answer hrun fun hmem => ?_
      rcases List.mem_append.mp hmem with hmem | hmem
      · exact hinst.index _ m hm (hissue ▸ (hinst.dead _ hmem).1)
      · have hnone := (List.mem_filter.mp hmem).2
        rw [hm] at hnone
        cases hnone
    · cases kind with
      | access => exact hi.goto_plain hrun rfl rfl rfl rfl rfl (by simp)
      | refresh =>
        refine hi.setTask hrun ⟨by simp [stores], fun s hs e he => ?_, fun e he => ?_,
          by simp [indexed], by simp [forwarded], by simp [loading], by simp⟩
        · cases hs
          simpa using (List.mem_filter.mp he).2
        · exact (List.mem_filter.mp he).1

theorem Inv.loadMapping (hi : Inv st) {kind : OpaqueKind} {token s : String}
    (hpc : (st.tasks t).pc = .loadMapping kind token s)
    (hr : runSection st t .ok = some st') : Inv st' := by
  have hrun : finished (st.tasks t).pc = false := by rw [hpc]; rfl
  simp only [runSection, hpc] at hr
  cases hm : st.forward s with
  | none =>
    simp only [hm, Option.some.injEq] at hr
    subst hr
    exact hi.goto_plain hrun rfl rfl rfl rfl rfl (by simp)
  | some m =>
    simp only [hm] at hr
    split at hr
    · cases hr
      exact hi.goto_plain hrun rfl rfl rfl rfl rfl (by simp)
    · cases hr
      refine hi.advance hrun (by simp [stores]) (by simp [ends]) (by simp [indexed])
        (by simp [forwarded]) (by simp [loading]) ?_
      intro s' m' h hmem
      cases h
      exact hi.forward s m hm ((hi.tasks t).loading (by rw [hpc]; rfl) _ hmem)

theorem Inv.hydrate (hi : Inv st) {s : String} {m : PersistedOpaqueMapping}
    (hpc : (st.tasks t).pc = .hydrate s m) (hg : current st (.run t .ok) = true) :
    Inv (OpaqueProtocol.answer
      (st.setInst t { st.inst t with index := (st.inst t).index.insert st.clock s m }) t
      (st.tasks t).barred s m.issue) := by
  have hrun : finished (st.tasks t).pc = false := by rw [hpc]; rfl
  have hinst := hi.mine t
  have hnot : (s, m.issue) ∉ (st.inst t).superseded := by simpa [current, hpc] using hg
  have hnew : Inv (st.setInst t
      { st.inst t with index := (st.inst t).index.insert st.clock s m }) := by
    refine hi.setInst ⟨hinst.superseded, hinst.dead, hinst.consistent.insert st.clock s m, ?_⟩
      (fun _ h => h)
    intro s' m' hm'
    rcases OpaqueIndex.insert_sessions (st.inst t).index st.clock s m with h | h
    · exact hinst.index s' m' (by rw [← h]; exact hm')
    · have hm' : Function.update (st.inst t).index.sessionToOpaques s (some m) s' = some m' := by
        rw [← h]
        exact hm'
      by_cases hs : s' = s
      · subst hs
        rw [Function.update_self] at hm'
        cases hm'
        exact hnot
      · rw [Function.update_of_ne hs] at hm'
        exact hinst.index s' m' hm'
  exact hnew.answer hrun ((hi.tasks t).hydrate s m hpc)

/-- The forward mapping of a rotation or removal is written, and it goes on. -/
theorem Inv.forwardThen (hi : Inv st) {s : String} {mapping : Option PersistedOpaqueMapping}
    (hends : ends (st.tasks t).pc = some s) (hindexed : indexed (st.tasks t).pc = true)
    (hnew : ∀ m, mapping = some m → (s, m.issue) ∉ st.returned)
    (hstores : ∀ s m, stores pc = some (s, m) → m.issue = t) (hends' : ends pc = some s)
    (hloading : loading pc = false) (hhydrate : ∀ s m, pc ≠ .hydrate s m) :
    Inv ((st.setForward s mapping).goto t pc) := by
  have hrun : finished (st.tasks t).pc = false := by
    cases hpc : (st.tasks t).pc <;> first | rfl | (rw [hpc] at hends; cases hends)
  refine (hi.setForward hnew).advance hrun hstores (fun s' h => ?_)
    (fun _ => (hi.tasks t).indexed hindexed) (fun _ => hi.forward_clean hends hnew)
    (fun h => by rw [hloading] at h; cases h) (fun s m h => absurd h (hhydrate s m))
  rw [hends'] at h
  exact hends.trans h

theorem Inv.store (hi : Inv st) {kind : OpaqueKind} {s : String} {m : PersistedOpaqueMapping}
    {old : Option PersistedOpaqueMapping} (hpc : (st.tasks t).pc = .storeInverse kind s m old)
    (hr : runSection st t .ok = some st') : Inv st' := by
  have hrun : finished (st.tasks t).pc = false := by rw [hpc]; rfl
  have hends : ends (st.tasks t).pc = some s := by rw [hpc]; rfl
  have hissue : m.issue = t := (hi.tasks t).stores s m (by rw [hpc]; rfl)
  have hindexed : indexed (st.tasks t).pc = true := by rw [hpc]; rfl
  have hforwarded : forwarded (st.tasks t).pc = true := by rw [hpc]; rfl
  cases kind with
  | access =>
    simp only [runSection, hpc, if_true, Option.some.injEq] at hr
    subst hr
    refine (hi.setInverse _ _ _).goto hrun ?_ (fun s' h => ?_) (fun _ => hindexed)
      (fun _ => hforwarded) rfl (by simp)
    · intro s' m' h
      cases h
      exact hissue
    · cases h
      exact hends
  | refresh =>
    simp only [runSection, hpc, if_true] at hr
    cases old with
    | some old =>
      simp only [Option.some.injEq] at hr
      subst hr
      refine (hi.setInverse _ _ _).goto hrun (by simp [stores]) (fun s' h => ?_)
        (fun _ => hindexed) (fun _ => hforwarded) rfl (by simp)
      cases h
      exact hends
    | none =>
      simp only [Option.some.injEq] at hr
      subst hr
      exact (hi.setInverse .refresh m.opaqueRefresh (some s)).finish (t := t) hindexed
        ((hi.tasks t).forwarded hforwarded) (by simp)

theorem Inv.drop (hi : Inv st) {kind : OpaqueKind} {s : String} {m : PersistedOpaqueMapping}
    (hpc : (st.tasks t).pc = .storeDrop kind s m ∨ (st.tasks t).pc = .removeDrop kind s m)
    (hr : runSection st t .ok = some st') : Inv st' := by
  have hrun : finished (st.tasks t).pc = false := by rcases hpc with h | h <;> rw [h] <;> rfl
  have hends : ends (st.tasks t).pc = some s := by rcases hpc with h | h <;> rw [h] <;> rfl
  have hindexed : indexed (st.tasks t).pc = true := by rcases hpc with h | h <;> rw [h] <;> rfl
  have hforwarded : forwarded (st.tasks t).pc = true := by
    rcases hpc with h | h <;> rw [h] <;> rfl
  have hnext : ∀ {pc} (token : String), stores pc = none → ends pc = some s →
      loading pc = false → (∀ s m, pc ≠ .hydrate s m) →
      Inv ((st.setInverse kind token none).goto t pc) := by
    intro pc token hs he hl hh
    refine (hi.setInverse kind token none).goto hrun (by simp [hs]) (fun s' h => ?_)
      (fun _ => hindexed) (fun _ => hforwarded) hl hh
    rw [he] at h
    exact hends.trans h
  have hend : ∀ (token : String) (stored : List Issue), (∀ e ∈ stored, e.2 = t) →
      Inv (OpaqueProtocol.finish (st.setInverse kind token none) t stored) :=
    fun token stored h => (hi.setInverse kind token none).finish (t := t) hindexed
      ((hi.tasks t).forwarded hforwarded) h
  cases kind with
  | access =>
    rcases hpc with hpc | hpc <;> simp only [runSection, hpc, if_true, Option.some.injEq] at hr <;>
      subst hr <;> exact hnext _ rfl rfl rfl (by simp)
  | refresh =>
    rcases hpc with hpc | hpc <;> simp only [runSection, hpc, if_true, Option.some.injEq] at hr <;>
      subst hr <;> exact hend _ _ (by simp)

theorem Inv.run {reply : Answer} (hi : Inv st) (hrel : reliable st (.run t reply) = true)
    (hg : current st (.run t reply) = true) (hr : runSection st t reply = some st') : Inv st' := by
  have hok : reply = .ok := of_decide_eq_true hrel
  subst hok
  cases hpc : (st.tasks t).pc with
  | idle => simp [runSection, hpc] at hr
  | done result => simp [runSection, hpc] at hr
  | storeLock s access refresh ttl =>
    have hends : ends (st.tasks t).pc = some s := by rw [hpc]; rfl
    have hrun : finished (st.tasks t).pc = false := by rw [hpc]; rfl
    simp only [runSection, hpc] at hr
    rw [lockMutation_eq_some hr]
    refine (hi.setLock (t := t) _).goto hrun ?_ (fun s' h => ?_) (by simp [indexed])
      (by simp [forwarded]) rfl (by simp)
    · intro s' m h
      cases h
      rfl
    · cases h
      exact hends
  | storeIndex s m =>
    simp only [runSection, hpc, Option.some.injEq] at hr
    subst hr
    exact hi.storeIndex hpc
  | storeForward s m old =>
    have hissue : m.issue = t := (hi.tasks t).stores s m (by rw [hpc]; rfl)
    simp only [runSection, hpc, if_true, Option.some.injEq] at hr
    subst hr
    -- Its own issue is the one that becomes current, and has not returned yet.
    refine hi.forwardThen (by rw [hpc]; rfl) (by rw [hpc]; rfl) ?_ ?_ rfl rfl (by simp)
    · intro m' h
      cases h
      rw [hissue]
      exact hi.not_returned (by rw [hpc]; rfl) s
    · intro s' m' h
      cases h
      exact hissue
  | storeInverse kind s m old => exact hi.store hpc hr
  | storeDrop kind s old => exact hi.drop (.inl hpc) hr
  | removeLock s =>
    have hends : ends (st.tasks t).pc = some s := by rw [hpc]; rfl
    have hrun : finished (st.tasks t).pc = false := by rw [hpc]; rfl
    simp only [runSection, hpc] at hr
    rw [lockMutation_eq_some hr]
    refine (hi.setLock (t := t) _).goto hrun (by simp [stores]) (fun s' h => ?_) (by simp [indexed])
      (by simp [forwarded]) rfl (by simp)
    cases h
    exact hends
  | removeIndex s =>
    simp only [runSection, hpc, Option.some.injEq] at hr
    subst hr
    split
    · exact hi.removeIndex hpc rfl rfl rfl rfl (by simp)
    · exact hi.removeIndex hpc rfl rfl rfl rfl (by simp)
  | removeLookup s =>
    have hends : ends (st.tasks t).pc = some s := by rw [hpc]; rfl
    have hindexed : indexed (st.tasks t).pc = true := by rw [hpc]; rfl
    simp only [runSection, hpc, if_true, Option.some.injEq] at hr
    subst hr
    refine hi.goto (by rw [hpc]; rfl) (by simp [stores]) (fun s' h => ?_) (fun _ => hindexed)
      (by simp [forwarded]) rfl (by simp)
    cases h
    exact hends
  | removeForward s opaques =>
    have hends : ends (st.tasks t).pc = some s := by rw [hpc]; rfl
    have hindexed : indexed (st.tasks t).pc = true := by rw [hpc]; rfl
    simp only [runSection, hpc, if_true] at hr
    cases opaques with
    | some m =>
      simp only [Option.some.injEq] at hr
      subst hr
      exact hi.forwardThen hends hindexed (by simp) (by simp [stores]) rfl rfl (by simp)
    | none =>
      simp only [Option.some.injEq] at hr
      subst hr
      have hgone : Inv (st.setForward s none) := hi.setForward (by simp)
      exact hgone.finish (t := t) hindexed (hi.forward_clean hends (by simp)) (by simp)
  | removeDrop kind s m => exact hi.drop (.inr hpc) hr
  | lookup kind token =>
    simp only [runSection, hpc, Option.some.injEq] at hr
    subst hr
    exact hi.lookup hpc
  | expireLock token =>
    have hrun : finished (st.tasks t).pc = false := by rw [hpc]; rfl
    simp only [runSection, hpc] at hr
    rw [lockMutation_eq_some hr]
    exact (hi.setLock (t := t) _).goto_plain hrun rfl rfl rfl rfl rfl (by simp)
  | expireIndex token =>
    have hrun : finished (st.tasks t).pc = false := by rw [hpc]; rfl
    simp only [runSection, hpc, Option.some.injEq] at hr
    subst hr
    exact (hi.setIndex (t := t) ((hi.mine t).consistent.expire .access token) (hi.mine t).index
      _).goto_plain hrun rfl rfl rfl rfl rfl (by simp)
  | expireBackend token =>
    have hrun : finished (st.tasks t).pc = false := by rw [hpc]; rfl
    simp only [runSection, hpc, if_true, Option.some.injEq] at hr
    subst hr
    exact ((hi.setInverse .access token none).setLock (t := t) none).goto_plain hrun rfl rfl rfl
      rfl rfl (by simp)
  | loadInverse kind token =>
    have hrun : finished (st.tasks t).pc = false := by rw [hpc]; rfl
    have hload : loading (st.tasks t).pc = true := by rw [hpc]; rfl
    simp only [runSection, hpc] at hr
    cases hinv : st.inverse kind token with
    | none =>
      simp only [hinv, Option.some.injEq] at hr
      subst hr
      exact hi.goto_plain hrun rfl rfl rfl rfl rfl (by simp)
    | some s =>
      simp only [hinv, Option.some.injEq] at hr
      subst hr
      exact hi.advance hrun (by simp [stores]) (by simp [ends]) (by simp [indexed])
        (by simp [forwarded]) (fun _ => hload) (by simp)
  | loadMapping kind token s => exact hi.loadMapping hpc hr
  | dropInverse kind token =>
    have hrun : finished (st.tasks t).pc = false := by rw [hpc]; rfl
    simp only [runSection, hpc, if_true, Option.some.injEq] at hr
    subst hr
    exact (hi.setInverse kind token none).goto_plain hrun rfl rfl rfl rfl rfl (by simp)
  | hydrate s m =>
    simp only [runSection, hpc, Option.some.injEq] at hr
    subst hr
    exact hi.hydrate hpc hg

theorem Inv.call (hi : Inv st) (hpc : (st.tasks t).pc = .idle) (inst : Nat) (op : Op) :
    Inv (st.setTask t { inst := inst, pc := op.start, prior := op.prior st, barred := [] }) := by
  refine hi.setTask (by rw [hpc]; rfl) ?_
  have hprior : ∀ e ∈ op.prior st, e ∈ st.returned := by
    intro e he
    cases op with
    | store s access refresh ttl => exact (List.mem_filter.mp he).1
    | remove s => exact (List.mem_filter.mp he).1
    | resolve kind token => cases he
  have hsession : ∀ s, ends op.start = some s → ∀ e ∈ op.prior st, e.1 = s := by
    intro s hs e he
    cases op with
    | store s' access refresh ttl =>
      cases hs
      simpa using (List.mem_filter.mp he).2
    | remove s' =>
      cases hs
      simpa using (List.mem_filter.mp he).2
    | resolve kind token => cases he
  refine ⟨?_, hsession, hprior, ?_, ?_, ?_, ?_⟩
  · cases op <;> simp [Op.start, stores]
  · cases op <;> simp [Op.start, indexed]
  · cases op <;> simp [Op.start, forwarded]
  · cases op <;> simp [Op.start, loading]
  · cases op <;> simp [Op.start]

theorem Inv.step {l : Label} (hi : Inv st) (hrel : reliable st l = true)
    (hg : current st l = true) (hst : step st l = some st') : Inv st' := by
  cases l with
  | tick d unix =>
    cases hst
    exact ⟨hi.returned, hi.revoked, hi.forward, hi.instances, hi.tasks, hi.breached⟩
  | call t inst op =>
    simp only [OpaqueProtocol.step] at hst
    split at hst
    · rename_i hpc
      cases hst
      exact hi.call hpc inst op
    · cases hst
  | run t reply => exact hi.run hrel hg hst
  | lapse s =>
    cases hst
    exact hi.setForward (by simp)
  | lapseInverse kind token =>
    cases hst
    exact hi.setInverse kind token none

theorem inv_init (clock : Clock) : Inv (init clock) := by
  refine ⟨by simp [init], by simp [init], by simp [init], fun i => ?_, fun t => ?_, rfl⟩
  · exact ⟨by simp [init], by simp [init], OpaqueIndex.consistent_empty,
      by simp [init, OpaqueIndex.empty]⟩
  · exact ⟨by simp [init, stores], by simp [init, ends], by simp [init], by simp [init, indexed],
      by simp [init, forwarded], by simp [init, loading], by simp [init]⟩

end Revocation

/-! ## Rotation and removal are final -/

namespace Revocation

/-- Task `t` on `inst`, from its call through `sections`. -/
def whole (t inst : Nat) (op : Op) (sections : Nat) : List Label :=
  .call t inst op :: List.replicate sections (.run t .ok)

end Revocation

end McpFramework.OpaqueProtocol
