import McpFramework.Auth.StoreProtocol

/-!
# Auth — OpaqueIsolation

An opaque token resolves to the session it was minted for, on every instance and
whatever else goes on.

The index is filled from three sides: a rotation puts the tokens it has just
minted, a resolve the mapping it has read, a boot the mappings it has listed. The
forward mapping of a session has tokens of that session only, and that is all a
resolve goes by: it checks the token it was asked for against the mapping, and
the inverse entry it came by need not even be right.
-/

namespace McpFramework

open Lib

/-! ## The opaque half -/

namespace OpaqueProtocol

/-- Ghost: the session each token was put into an index for. -/
abbrev Minted := OpaqueKind → String → Option String

/-- The tokens of a mapping were minted for its session. -/
def Owns (minted : Minted) (sessionId : String) (m : PersistedOpaqueMapping) : Prop :=
  ∀ kind, minted kind (m.token kind) = some sessionId

/-- The tokens a rotation is about to put into the index. -/
def Pc.carried : Pc → List String
  | .storeLock _ opaqueAccess opaqueRefresh _ => [opaqueAccess, opaqueRefresh]
  | .storeIndex _ m => [m.opaqueAccess, m.opaqueRefresh]
  | _ => []

/-- What a resolve is after until it has found a session for it. -/
def Pc.sought : Pc → Option (OpaqueKind × String)
  | .lookup kind token => some (kind, token)
  | .loadInverse kind token => some (kind, token)
  | .loadMapping kind token _ => some (kind, token)
  | _ => none

/-- A phase that has nothing to hand on: no tokens, no mapping, no session, and no
token to find one for. -/
def Pc.plain : Pc → Bool
  | .storeLock _ _ _ _ => false
  | .storeIndex _ _ => false
  | .storeForward _ _ _ => false
  | .lookup _ _ => false
  | .loadInverse _ _ => false
  | .loadMapping _ _ _ => false
  | .hydrate _ _ => false
  | .done (some _) => false
  | _ => true

/-- The mapping an operation has is of its session. -/
def Carries (minted : Minted) : Pc → Prop
  | .storeForward sessionId m _ => Owns minted sessionId m
  | .hydrate sessionId m => Owns minted sessionId m
  | _ => True

/-- A resolve of a token is at a question about it, or has the right answer. -/
def Resolves (minted : Minted) (kind : OpaqueKind) (token : String) : Pc → Prop
  | .lookup kind' token' => kind' = kind ∧ token' = token
  | .loadInverse kind' token' => kind' = kind ∧ token' = token
  | .loadMapping kind' token' _ => kind' = kind ∧ token' = token
  | .hydrate sessionId m => minted kind token = some sessionId ∧ m.token kind = token
  | .done (some sessionId) => minted kind token = some sessionId
  | _ => True

structure Provenance (minted : Minted) (st : State) : Prop where
  index : ∀ i kind token b, (st.instances i).index.toSession kind token = some b →
    minted kind token = some b.sessionId
  forward : ∀ sessionId m, st.forward sessionId = some m → Owns minted sessionId m
  tasks : ∀ t, Carries minted (st.tasks t).pc

section Provenance

variable {minted minted' : Minted} {st st' : State} {t : Nat} {pc : Pc} {kind : OpaqueKind}
  {token : String} {reply : Answer}

theorem Owns.mono (hm : ∀ kind token s, minted kind token = some s → minted' kind token = some s)
    {s : String} {m : PersistedOpaqueMapping} (h : Owns minted s m) : Owns minted' s m :=
  fun kind => hm _ _ _ (h kind)

theorem Carries.mono
    (hm : ∀ kind token s, minted kind token = some s → minted' kind token = some s)
    (h : Carries minted pc) : Carries minted' pc := by
  cases pc with
  | storeForward s m old => exact Owns.mono hm h
  | hydrate s m => exact Owns.mono hm h
  | _ => trivial

theorem Resolves.mono
    (hm : ∀ kind token s, minted kind token = some s → minted' kind token = some s)
    (h : Resolves minted kind token pc) : Resolves minted' kind token pc := by
  cases pc with
  | lookup kind' token' => exact h
  | loadInverse kind' token' => exact h
  | loadMapping kind' token' s => exact h
  | hydrate s m => exact ⟨hm _ _ _ h.1, h.2⟩
  | done result =>
    cases result with
    | none => trivial
    | some s => exact hm _ _ _ h
  | _ => trivial

theorem Provenance.mono
    (hm : ∀ kind token s, minted kind token = some s → minted' kind token = some s)
    (h : Provenance minted st) : Provenance minted' st where
  index := fun i kind token b hb => hm _ _ _ (h.index i kind token b hb)
  forward := fun s m hsm => (h.forward s m hsm).mono hm
  tasks := fun t => (h.tasks t).mono hm

theorem Provenance.setTask (h : Provenance minted st) {task : Task}
    (htask : Carries minted task.pc) : Provenance minted (st.setTask t task) where
  index := h.index
  forward := h.forward
  tasks := (forall_update_iff (P := fun _ (task : Task) => Carries minted task.pc)).mpr
    ⟨htask, fun u _ => h.tasks u⟩

theorem Provenance.setForward (h : Provenance minted st) {s : String}
    {mapping : Option PersistedOpaqueMapping} (hm : ∀ m, mapping = some m → Owns minted s m) :
    Provenance minted (st.setForward s mapping) where
  index := h.index
  forward := (forall_update_iff (P := fun s (mapping : Option PersistedOpaqueMapping) =>
    ∀ m, mapping = some m → Owns minted s m)).mpr ⟨hm, fun s _ => h.forward s⟩
  tasks := h.tasks

theorem Provenance.setInverse (h : Provenance minted st) (kind : OpaqueKind) (token : String)
    (s : Option String) : Provenance minted (st.setInverse kind token s) :=
  ⟨h.index, h.forward, h.tasks⟩

/-! ### What a section does -/

/-- Where a section takes its task, and what it makes of the index. Bindings come
from rotations and from mappings that were read, and a resolve has its answer from
the index or from such a mapping. -/
inductive Next (st : State) (t : Nat) : Pc → OpaqueIndex → Prop where
  | on {pc : Pc} {index : OpaqueIndex} (hfrom : (st.tasks t).pc.carried = [])
      (hplain : pc.plain = true) (hindex : (st.inst t).index.Thins index) : Next st t pc index
  | lock {s a r : String} {ttl : Nat} {m : PersistedOpaqueMapping}
      (hpc : (st.tasks t).pc = .storeLock s a r ttl) (ha : m.opaqueAccess = a)
      (hr : m.opaqueRefresh = r) : Next st t (.storeIndex s m) (st.inst t).index
  | rotate {s : String} {m : PersistedOpaqueMapping} {old : Option PersistedOpaqueMapping}
      (hpc : (st.tasks t).pc = .storeIndex s m) :
      Next st t (.storeForward s m old)
        (((st.inst t).index.removeSession s).1.insert st.clock s m)
  | seek {pc : Pc} {kind : OpaqueKind} {token : String}
      (hfrom : (st.tasks t).pc.sought = some (kind, token))
      (hsought : pc.sought = some (kind, token)) : Next st t pc (st.inst t).index
  | find {kind : OpaqueKind} {token : String} {b : OpaqueBinding}
      (hpc : (st.tasks t).pc = .lookup kind token)
      (hb : (st.inst t).index.toSession kind token = some b) (hlive : b.expiresAt > st.clock.now) :
      Next st t (.done (some b.sessionId)) (st.inst t).index
  | read {kind : OpaqueKind} {token s : String} {m : PersistedOpaqueMapping}
      (hpc : (st.tasks t).pc = .loadMapping kind token s) (hforward : st.forward s = some m)
      (htoken : m.token kind = token) : Next st t (.hydrate s m) (st.inst t).index
  | hydrate {s : String} {m : PersistedOpaqueMapping} (hpc : (st.tasks t).pc = .hydrate s m) :
      Next st t (.done (some s)) ((st.inst t).index.insert st.clock s m)

theorem Next.goto {mid : State} (hfrom : (st.tasks t).pc.carried = []) (hplain : pc.plain = true)
    (hindex : (st.inst t).index.Thins (mid.instances (st.tasks t).inst).index) :
    Next st t ((mid.goto t pc).tasks t).pc ((mid.goto t pc).instances (st.tasks t).inst).index := by
  rw [goto_pc]
  exact .on hfrom hplain hindex

/-- A section that writes to the backend only. -/
theorem Next.write {mid : State} (hfrom : (st.tasks t).pc.carried = [])
    (hplain : pc.plain = true) (hinsts : mid.instances = st.instances) :
    Next st t ((mid.goto t pc).tasks t).pc ((mid.goto t pc).instances (st.tasks t).inst).index := by
  refine .goto hfrom hplain ?_
  rw [hinsts]
  exact .refl _

theorem Next.finish {mid : State} (hfrom : (st.tasks t).pc.carried = [])
    (htasks : mid.tasks = st.tasks) (hinsts : mid.instances = st.instances) (stored : List Issue) :
    Next st t ((OpaqueProtocol.finish mid t stored).tasks t).pc
      ((OpaqueProtocol.finish mid t stored).instances (st.tasks t).inst).index := by
  rw [finish_pc]
  refine .on hfrom rfl ?_
  simp only [OpaqueProtocol.finish, State.goto, State.setTask, State.setInst, State.inst, htasks,
    hinsts, Function.update_self]
  exact .refl _

theorem Next.lockMutation (hfrom : (st.tasks t).pc.carried = []) (hplain : pc.plain = true)
    (hs : OpaqueProtocol.lockMutation st t pc = some st') :
    Next st t (st'.tasks t).pc (st'.instances (st.tasks t).inst).index := by
  unfold OpaqueProtocol.lockMutation at hs
  split at hs <;> cases hs
  refine .goto hfrom hplain ?_
  simp only [State.setInst, Function.update_self]
  exact .refl _

theorem lookupSection_next (hpc : (st.tasks t).pc = .lookup kind token) :
    Next st t ((lookupSection st t kind token).tasks t).pc
      ((lookupSection st t kind token).instances (st.tasks t).inst).index := by
  have hfrom : (st.tasks t).pc.carried = [] := by rw [hpc]; rfl
  unfold lookupSection
  split
  · rename_i b hb
    split
    · rename_i hlive
      rw [answer_pc]
      exact .find hpc hb hlive
    · -- What has expired is removed and not answered.
      cases kind with
      | access => exact .write hfrom rfl rfl
      | refresh =>
        simp only [State.setTask, Function.update_self]
        exact .on hfrom rfl (.refl _)
  · simp only [State.setTask, Function.update_self]
    exact .seek (by rw [hpc]; rfl) rfl

theorem runSection_next (hr : runSection st t reply = some st') :
    Next st t (st'.tasks t).pc (st'.instances (st.tasks t).inst).index := by
  cases hpc : (st.tasks t).pc with
  | idle => simp [runSection, hpc] at hr
  | done result => simp [runSection, hpc] at hr
  | storeLock s a r ttl =>
    simp only [runSection, hpc, OpaqueProtocol.lockMutation] at hr
    split at hr <;> cases hr
    rw [goto_pc]
    simp only [State.goto, State.setTask, State.setInst, Function.update_self]
    exact .lock hpc rfl rfl
  | storeIndex s m =>
    simp only [runSection, hpc, Option.some.injEq] at hr
    rw [← hr, goto_pc]
    simp only [OpaqueProtocol.supersede, State.goto, State.setTask, State.setInst,
      Function.update_self]
    exact .rotate hpc
  | storeForward s m old =>
    simp only [runSection, hpc, Option.some.injEq] at hr
    rw [← hr]
    refine .write (by rw [hpc]; rfl) rfl ?_
    split <;> rfl
  | storeInverse kind s m old =>
    cases kind with
    | access =>
      simp only [runSection, hpc, Option.some.injEq] at hr
      rw [← hr]
      refine .write (by rw [hpc]; rfl) rfl ?_
      split <;> rfl
    | refresh =>
      cases old <;> simp only [runSection, hpc, Option.some.injEq] at hr <;> rw [← hr]
      · exact .finish (by rw [hpc]; rfl) (by split <;> rfl) (by split <;> rfl) _
      · refine .write (by rw [hpc]; rfl) rfl ?_
        split <;> rfl
  | storeDrop kind _ _ | removeDrop kind _ _ =>
    cases kind <;> simp only [runSection, hpc, Option.some.injEq] at hr <;> rw [← hr]
    · refine .write (by rw [hpc]; rfl) rfl ?_
      split <;> rfl
    · exact .finish (by rw [hpc]; rfl) (by split <;> rfl) (by split <;> rfl) _
  | removeLock _ | expireLock _ =>
    simp only [runSection, hpc] at hr
    refine .lockMutation (by rw [hpc]; rfl) ?_ hr
    rfl
  | removeIndex s =>
    simp only [runSection, hpc, Option.some.injEq] at hr
    rw [← hr]
    refine .goto (by rw [hpc]; rfl) (by split <;> rfl) ?_
    simp only [OpaqueProtocol.supersede, State.setInst, Function.update_self]
    exact OpaqueIndex.thins_removeSession ..
  | removeLookup s =>
    simp only [runSection, hpc, Option.some.injEq] at hr
    rw [← hr]
    exact .write (by rw [hpc]; rfl) rfl rfl
  | removeForward s opaques =>
    cases opaques <;> simp only [runSection, hpc, Option.some.injEq] at hr <;> rw [← hr]
    · exact .finish (by rw [hpc]; rfl) (by split <;> rfl) (by split <;> rfl) _
    · refine .write (by rw [hpc]; rfl) rfl ?_
      split <;> rfl
  | lookup kind token =>
    simp only [runSection, hpc, Option.some.injEq] at hr
    rw [← hr]
    exact lookupSection_next hpc
  | expireIndex a =>
    simp only [runSection, hpc, Option.some.injEq] at hr
    rw [← hr]
    refine .goto (by rw [hpc]; rfl) rfl ?_
    simp only [State.setInst, Function.update_self]
    exact OpaqueIndex.thins_expire ..
  | expireBackend a =>
    simp only [runSection, hpc, Option.some.injEq] at hr
    rw [← hr]
    refine .goto (by rw [hpc]; rfl) rfl ?_
    cases reply <;> simp [State.setInst, State.setInverse, State.inst, OpaqueIndex.Thins.refl]
  | loadInverse kind token =>
    simp only [runSection, hpc] at hr
    split at hr <;> cases hr
    · rw [goto_pc]
      exact .seek (by rw [hpc]; rfl) rfl
    · exact .write (by rw [hpc]; rfl) rfl rfl
  | loadMapping kind token s =>
    simp only [runSection, hpc] at hr
    split at hr
    · rename_i m hforward
      split at hr <;> cases hr
      · exact .write (by rw [hpc]; rfl) rfl rfl
      · -- The mapping is taken only if it has the token that was asked for.
        rename_i hmatch
        rw [goto_pc]
        refine .read hpc hforward ?_
        by_contra hne
        exact hmatch (.inl hne)
    · cases hr
      exact .write (by rw [hpc]; rfl) rfl rfl
  | dropInverse kind token =>
    simp only [runSection, hpc, Option.some.injEq] at hr
    rw [← hr]
    refine .write (by rw [hpc]; rfl) rfl ?_
    split <;> rfl
  | hydrate s m =>
    simp only [runSection, hpc, Option.some.injEq] at hr
    rw [← hr, answer_pc]
    simp only [OpaqueProtocol.answer, State.goto, State.setTask, State.setInst,
      Function.update_self]
    exact .hydrate hpc

/-- A forward mapping is written by the rotation that has it, and by nothing else. -/
theorem runSection_forward (hr : runSection st t reply = some st') (s : String) :
    st'.forward s = st.forward s ∨ st'.forward s = none ∨
      ∃ m old, (st.tasks t).pc = .storeForward s m old ∧ st'.forward s = some m := by
  have hlock : ∀ pc, OpaqueProtocol.lockMutation st t pc = some st' →
      st'.forward s = st.forward s := fun pc hs => by
    unfold OpaqueProtocol.lockMutation at hs
    split at hs <;> cases hs
    rfl
  cases hpc : (st.tasks t).pc with
  | idle => simp [runSection, hpc] at hr
  | done result => simp [runSection, hpc] at hr
  | storeLock s' a r ttl =>
    simp only [runSection, hpc] at hr
    exact .inl (hlock _ hr)
  | storeForward s' m old =>
    simp only [runSection, hpc, Option.some.injEq] at hr
    subst hr
    cases reply with
    | ok =>
      by_cases hs : s = s'
      · subst hs
        exact .inr (.inr ⟨m, old, rfl, Function.update_self ..⟩)
      · exact .inl (Function.update_of_ne hs ..)
    | err => exact .inl rfl
  | storeInverse kind s' m old =>
    cases kind with
    | access =>
      simp only [runSection, hpc, Option.some.injEq] at hr
      subst hr
      cases reply <;> exact .inl rfl
    | refresh =>
      cases old <;> simp only [runSection, hpc, Option.some.injEq] at hr <;> subst hr <;>
        cases reply <;> exact .inl rfl
  | storeDrop kind _ _ | removeDrop kind _ _ =>
    cases kind <;> simp only [runSection, hpc, Option.some.injEq] at hr <;> subst hr <;>
      cases reply <;> exact .inl rfl
  | removeLock _ | expireLock _ =>
    simp only [runSection, hpc] at hr
    exact .inl (hlock _ hr)
  | removeForward s' opaques =>
    have hdropped : (st.setForward s' none).forward s = st.forward s ∨
        (st.setForward s' none).forward s = none := by
      by_cases hs : s = s'
      · subst hs
        exact .inr (Function.update_self ..)
      · exact .inl (Function.update_of_ne hs ..)
    cases opaques <;> simp only [runSection, hpc, Option.some.injEq] at hr <;> subst hr <;>
      cases reply
    · exact hdropped.imp_right .inl
    · exact .inl rfl
    · exact hdropped.imp_right .inl
    · exact .inl rfl
  | lookup kind token =>
    simp only [runSection, hpc, Option.some.injEq] at hr
    subst hr
    refine .inl ?_
    unfold lookupSection
    split
    · split
      · rfl
      · split <;> rfl
    · rfl
  | expireBackend a =>
    simp only [runSection, hpc, Option.some.injEq] at hr
    subst hr
    cases reply <;> exact .inl rfl
  | loadInverse kind token =>
    simp only [runSection, hpc] at hr
    split at hr <;> cases hr <;> exact .inl rfl
  | loadMapping kind token s' =>
    simp only [runSection, hpc] at hr
    split at hr
    · split at hr <;> cases hr <;> exact .inl rfl
    · cases hr
      exact .inl rfl
  | dropInverse kind token =>
    simp only [runSection, hpc, Option.some.injEq] at hr
    subst hr
    cases reply <;> exact .inl rfl
  | _ =>
    simp only [runSection, hpc, Option.some.injEq] at hr
    subst hr
    exact .inl rfl

/-! ### What it leaves true -/

theorem carried_of_plain (h : pc.plain = true) : pc.carried = [] := by
  cases pc with
  | storeLock s a r ttl => cases h
  | storeIndex s m => cases h
  | _ => rfl

theorem carried_of_sought {p : OpaqueKind × String} (h : pc.sought = some p) :
    pc.carried = [] := by
  cases pc with
  | storeLock s a r ttl => cases h
  | storeIndex s m => cases h
  | _ => rfl

theorem carries_of_plain (h : pc.plain = true) : Carries minted pc := by
  cases pc with
  | storeForward s m old => cases h
  | hydrate s m => cases h
  | _ => trivial

theorem carries_of_sought {p : OpaqueKind × String} (h : pc.sought = some p) :
    Carries minted pc := by
  cases pc with
  | storeForward s m old => cases h
  | hydrate s m => cases h
  | _ => trivial

theorem resolves_of_plain (h : pc.plain = true) : Resolves minted kind token pc := by
  cases pc with
  | lookup kind' token' => cases h
  | loadInverse kind' token' => cases h
  | loadMapping kind' token' s => cases h
  | hydrate s m => cases h
  | done result =>
    cases result with
    | none => trivial
    | some s => cases h
  | _ => trivial

theorem resolves_iff_of_sought {kind' : OpaqueKind} {token' : String}
    (h : pc.sought = some (kind', token')) :
    Resolves minted kind token pc ↔ kind' = kind ∧ token' = token := by
  cases pc with
  | lookup kind'' token'' | loadInverse kind'' token'' | loadMapping kind'' token'' s =>
    cases h
    exact Iff.rfl
  | _ => cases h

variable {index : OpaqueIndex}

/-- A section keeps what its rotation carries, until that is in the index. -/
theorem Next.carried (h : Next st t pc index) :
    pc.carried = [] ∨
      ∃ s a r ttl, (st.tasks t).pc = .storeLock s a r ttl ∧ pc.carried = [a, r] := by
  cases h with
  | on _ hplain => exact .inl (carried_of_plain hplain)
  | lock hpc ha hr => exact .inr ⟨_, _, _, _, hpc, by rw [← ha, ← hr]; rfl⟩
  | rotate => exact .inl rfl
  | seek _ hsought => exact .inl (carried_of_sought hsought)
  | find => exact .inl rfl
  | read => exact .inl rfl
  | hydrate => exact .inl rfl

/-- A rotation that has the lock updates the index next. -/
theorem Next.locked {s a r : String} {ttl : Nat} (h : Next st t pc index)
    (hpc : (st.tasks t).pc = .storeLock s a r ttl) : ∃ m, pc = .storeIndex s m := by
  cases h with
  | on hother | rotate hother | seek hother | find hother | read hother | hydrate hother =>
    rw [hpc] at hother
    cases hother
  | lock hlock =>
    rw [hpc] at hlock
    cases hlock
    exact ⟨_, rfl⟩

theorem Next.rotated {s : String} {m : PersistedOpaqueMapping} (h : Next st t pc index)
    (hpc : (st.tasks t).pc = .storeIndex s m) :
    pc.carried = [] ∧ index = ((st.inst t).index.removeSession s).1.insert st.clock s m := by
  cases h with
  | on hother | lock hother | seek hother | find hother | read hother | hydrate hother =>
    rw [hpc] at hother
    cases hother
  | rotate hrotate =>
    rw [hpc] at hrotate
    cases hrotate
    exact ⟨rfl, rfl⟩

/-- A binding is of the session its token was minted for. -/
theorem Next.owned (hnext : Next st t pc index) (h : Provenance minted st)
    (hstore : ∀ s m, (st.tasks t).pc = .storeIndex s m → Owns minted s m) {b : OpaqueBinding}
    (hb : index.toSession kind token = some b) : minted kind token = some b.sessionId := by
  have hold := h.index (st.tasks t).inst
  have hcarries := h.tasks t
  cases hnext with
  | on _ _ hindex => exact hold kind token b (hindex.toSession _ _ b hb)
  | lock => exact hold kind token b hb
  | @rotate s m _ hpc =>
    rcases OpaqueIndex.toSession_of_insert hb with ⟨hs, htoken⟩ | hrest
    · rw [hs, ← htoken]
      exact hstore s m hpc kind
    · exact hold kind token b (OpaqueIndex.toSession_of_removeSession hrest)
  | seek => exact hold kind token b hb
  | find => exact hold kind token b hb
  | read => exact hold kind token b hb
  | @hydrate s m hpc =>
    rw [hpc] at hcarries
    rcases OpaqueIndex.toSession_of_insert hb with ⟨hs, htoken⟩ | hrest
    · rw [hs, ← htoken]
      exact hcarries kind
    · exact hold kind token b hrest

theorem Next.carries (hnext : Next st t pc index) (h : Provenance minted st)
    (hstore : ∀ s m, (st.tasks t).pc = .storeIndex s m → Owns minted s m) :
    Carries minted pc := by
  cases hnext with
  | on _ hplain => exact carries_of_plain hplain
  | lock => trivial
  | rotate hpc => exact hstore _ _ hpc
  | seek _ hsought => exact carries_of_sought hsought
  | find => trivial
  | read _ hforward => exact h.forward _ _ hforward
  | hydrate => trivial

/-- Nothing is bound to another session by a section, the tokens of a rotation
being its session's. -/
theorem Provenance.run (h : Provenance minted st)
    (hstore : ∀ s m, (st.tasks t).pc = .storeIndex s m → Owns minted s m)
    (hr : runSection st t reply = some st') : Provenance minted st' := by
  have hlocal := runSection_local hr
  have hnext := runSection_next hr
  refine ⟨fun i kind token b hb => ?_, fun s m hm => ?_, fun u => ?_⟩
  · by_cases hi : i = (st.tasks t).inst
    · subst hi
      exact hnext.owned h hstore hb
    · rw [hlocal.instances i hi] at hb
      exact h.index i kind token b hb
  · rcases runSection_forward hr s with hsame | hnone | ⟨m', old, hpc, hwritten⟩
    · rw [hsame] at hm
      exact h.forward s m hm
    · rw [hnone] at hm
      cases hm
    · rw [hwritten] at hm
      cases hm
      have hcarries := h.tasks t
      rw [hpc] at hcarries
      exact hcarries
  · by_cases hu : u = t
    · subst hu
      exact hnext.carries h hstore
    · rw [hlocal.tasks u hu]
      exact h.tasks u

/-- A resolve of a token that is on its way stays so. -/
theorem Next.resolves (hnext : Next st t pc index) (h : Provenance minted st)
    (hres : Resolves minted kind token (st.tasks t).pc) : Resolves minted kind token pc := by
  cases hnext with
  | on _ hplain => exact resolves_of_plain hplain
  | lock => trivial
  | rotate => trivial
  | seek hfrom hsought =>
    exact (resolves_iff_of_sought hsought).mpr ((resolves_iff_of_sought hfrom).mp hres)
  | find hpc hb =>
    rw [hpc] at hres
    obtain ⟨rfl, rfl⟩ := hres
    exact h.index _ _ _ _ hb
  | @read kind' token' s m hpc hforward htoken =>
    -- The mapping has the token, so it is the session the token is of.
    rw [hpc] at hres
    obtain ⟨rfl, rfl⟩ := hres
    have hown := h.forward s m hforward kind'
    rw [htoken] at hown
    exact ⟨hown, htoken⟩
  | hydrate hpc =>
    rw [hpc] at hres
    exact hres.1

end Provenance

end OpaqueProtocol

/-! ## The whole store -/

namespace StoreProtocol

open OpaqueProtocol (Carries Minted Owns Provenance Resolves)
open TokenProtocol (Answer)

/-- A phase goes with where the opaque half of its task is. -/
def Suits (minted : Minted) (pc : OpaqueProtocol.Pc) : Pc → Prop
  | .grantResolve refreshToken => Resolves minted .refresh refreshToken pc
  | .resolve kind token => Resolves minted kind token pc
  | .grantToken refreshToken sessionId => minted .refresh refreshToken = some sessionId
  | .mint sessionId _ (some refreshToken) => minted .refresh refreshToken = some sessionId
  | .loadMappings boot => ∀ e ∈ boot.entries, Owns minted e.1 e.2
  | .loadDropMapping _ boot => ∀ e ∈ boot.entries, Owns minted e.1 e.2
  | .loadDropInverse _ _ boot => ∀ e ∈ boot.entries, Owns minted e.1 e.2
  | _ => True

/-- The tokens a task is about to put into the index. -/
def State.carried (st : State) (t : Nat) : List String := (st.opaques.tasks t).pc.carried

/-- Tokens that are on their way into an index are nobody's yet. -/
structure Pending (st : State) : Prop where
  generated : ∀ kind token s, st.minted kind token = some s → token ∈ st.generated
  carried : ∀ t, ∀ token ∈ st.carried t, token ∈ st.generated
  unminted : ∀ t, ∀ token ∈ st.carried t, ∀ kind, st.minted kind token = none
  distinct : ∀ t, (st.carried t).Nodup
  disjoint : ∀ t u, t ≠ u → ∀ token ∈ st.carried t, token ∉ st.carried u

structure Isolated (st : State) : Prop where
  provenance : Provenance st.minted st.opaques
  pending : Pending st
  phase : ∀ t, Suits st.minted (st.opaques.tasks t).pc (st.tasks t).pc
  apart : ∀ token s s', st.minted .access token = some s → st.minted .refresh token ≠ some s'
  answers : ∀ a ∈ st.answers, ∀ s, a.sessionId = some s → st.minted a.kind a.token = some s

section Isolated

variable {minted minted' : Minted} {st st' : State} {t : Nat} {pc : Pc} {answer : Answer}
  {l : Label}

theorem isolated_init (clock : Clock) (refreshConfig : Bool) :
    Isolated (init clock refreshConfig) where
  provenance := ⟨fun _ _ _ _ h => (by cases h), fun _ _ h => (by cases h), fun _ => trivial⟩
  pending := ⟨fun _ _ _ h => (by cases h), fun _ _ h => (by cases h), fun _ _ h => (by cases h),
    fun _ => .nil, fun _ _ _ _ h => (by cases h)⟩
  phase := fun _ => trivial
  apart := fun _ _ _ h => by cases h
  answers := fun _ h => by cases h

theorem Suits.mono (hm : ∀ kind token s, minted kind token = some s → minted' kind token = some s)
    {pc' : OpaqueProtocol.Pc} (h : Suits minted pc' pc) : Suits minted' pc' pc := by
  cases pc with
  | grantResolve r => exact Resolves.mono hm h
  | resolve kind token => exact Resolves.mono hm h
  | grantToken r s => exact hm _ _ _ h
  | mint s ttl grant =>
    cases grant with
    | none => trivial
    | some r => exact hm _ _ _ h
  | loadMappings boot => exact fun e he => (h e he).mono hm
  | loadDropMapping dropped boot => exact fun e he => (h e he).mono hm
  | loadDropInverse kind m boot => exact fun e he => (h e he).mono hm
  | _ => trivial

/-! ### Tokens on their way -/

/-- The opaque half's tasks stay where they are. -/
theorem Pending.congr (h : Pending st) (hminted : st'.minted = st.minted)
    (hgenerated : st'.generated = st.generated)
    (hplaces : st'.opaques.tasks = st.opaques.tasks) : Pending st' := by
  have hcarried : st'.carried = st.carried := by
    funext t
    rw [State.carried, hplaces]
    rfl
  refine ⟨?_, ?_, ?_, ?_, ?_⟩
  · rw [hminted, hgenerated]
    exact h.generated
  · rw [hcarried, hgenerated]
    exact h.carried
  · rw [hcarried, hminted]
    exact h.unminted
  · rw [hcarried]
    exact h.distinct
  · rw [hcarried]
    exact h.disjoint

/-- A task goes on with what it carries, or with nothing. -/
theorem Pending.shrink (h : Pending st) (hminted : st'.minted = st.minted)
    (hgenerated : st'.generated = st.generated)
    (hothers : ∀ u, u ≠ t → st'.carried u = st.carried u)
    (hself : st'.carried t = [] ∨ st'.carried t = st.carried t) : Pending st' := by
  have hsub : ∀ u, st'.carried u = [] ∨ st'.carried u = st.carried u := fun u => by
    by_cases hu : u = t
    · rw [hu]
      exact hself
    · exact .inr (hothers u hu)
  have hmem : ∀ u token, token ∈ st'.carried u → token ∈ st.carried u := fun u token htoken => by
    rcases hsub u with hnil | hsame
    · rw [hnil] at htoken
      cases htoken
    · rwa [← hsame]
  refine ⟨?_, fun u token htoken => ?_, fun u token htoken => ?_, fun u => ?_,
    fun u v huv token htoken hin => ?_⟩
  · rw [hminted, hgenerated]
    exact h.generated
  · rw [hgenerated]
    exact h.carried u token (hmem u token htoken)
  · rw [hminted]
    exact h.unminted u token (hmem u token htoken)
  · rcases hsub u with hnil | hsame
    · rw [hnil]
      exact .nil
    · rw [hsame]
      exact h.distinct u
  · exact h.disjoint u v huv token (hmem u token htoken) (hmem v token hin)

/-- A task starts with fresh tokens. -/
theorem Pending.grow (h : Pending st) {a r : String} (hne : a ≠ r) (ha : a ∉ st.generated)
    (hr : r ∉ st.generated) (hminted : st'.minted = st.minted)
    (hgenerated : st'.generated = a :: r :: st.generated)
    (hothers : ∀ u, u ≠ t → st'.carried u = st.carried u) (hself : st'.carried t = [a, r]) :
    Pending st' := by
  -- Nobody else carries the new tokens, since what is carried has been generated.
  have hfresh : ∀ token ∈ st'.carried t, token ∉ st.generated := fun token htoken => by
    rw [hself] at htoken
    rcases List.mem_pair.mp htoken with rfl | rfl
    · exact ha
    · exact hr
  have hknown : ∀ u, u ≠ t → ∀ token ∈ st'.carried u, token ∈ st.generated :=
    fun u hu token htoken => h.carried u token (by rwa [← hothers u hu])
  refine ⟨fun kind token s hs => ?_, fun u token htoken => ?_, fun u token htoken kind => ?_,
    fun u => ?_, fun u v huv token htoken hin => ?_⟩
  · rw [hminted] at hs
    rw [hgenerated]
    exact List.mem_cons_of_mem _ (List.mem_cons_of_mem _ (h.generated kind token s hs))
  · rw [hgenerated]
    by_cases hu : u = t
    · rw [hu, hself] at htoken
      rcases List.mem_pair.mp htoken with rfl | rfl
      · exact List.mem_cons_self ..
      · exact List.mem_cons_of_mem _ (List.mem_cons_self ..)
    · exact List.mem_cons_of_mem _ (List.mem_cons_of_mem _ (hknown u hu token htoken))
  · rw [hminted]
    by_cases hu : u = t
    · subst hu
      cases hs : st.minted kind token with
      | none => rfl
      | some s => exact absurd (h.generated kind token s hs) (hfresh token htoken)
    · exact h.unminted u token (by rwa [← hothers u hu]) kind
  · by_cases hu : u = t
    · rw [hu, hself]
      simpa using hne
    · rw [hothers u hu]
      exact h.distinct u
  · by_cases hu : u = t
    · subst hu
      exact hfresh token htoken (hknown v (Ne.symm huv) token hin)
    · by_cases hv : v = t
      · subst hv
        exact hfresh token hin (hknown u hu token htoken)
      · rw [hothers u hu] at htoken
        rw [hothers v hv] at hin
        exact h.disjoint u v huv token htoken hin

/-! ### One change at a time -/

/-- The tasks stay where they are. -/
theorem Isolated.congr (h : Isolated st) (hprovenance : Provenance st.minted st'.opaques)
    (hminted : st'.minted = st.minted) (hgenerated : st'.generated = st.generated)
    (htasks : st'.tasks = st.tasks) (hplaces : st'.opaques.tasks = st.opaques.tasks)
    (hanswers : st'.answers = st.answers) : Isolated st' where
  provenance := by
    rw [hminted]
    exact hprovenance
  pending := h.pending.congr hminted hgenerated hplaces
  phase := by
    rw [hminted, htasks, hplaces]
    exact h.phase
  apart := by
    rw [hminted]
    exact h.apart
  answers := by
    rw [hminted, hanswers]
    exact h.answers

theorem Isolated.goto (h : Isolated st) (hpc : Suits st.minted (st.opaques.tasks t).pc pc) :
    Isolated (st.goto t pc) where
  provenance := h.provenance
  pending := h.pending.congr rfl rfl rfl
  phase := (forall_update_iff (P := fun u (task : Task) =>
    Suits st.minted (st.opaques.tasks u).pc task.pc)).mpr ⟨hpc, fun u _ => h.phase u⟩
  apart := h.apart
  answers := h.answers

theorem Isolated.lockOpaques (h : Isolated st) (t : Nat) (lock : Option Nat) :
    Isolated (st.lockOpaques t lock) := by
  refine h.congr ⟨fun i kind token b hb => ?_, h.provenance.forward, h.provenance.tasks⟩ rfl rfl rfl
    rfl rfl
  refine h.provenance.index i kind token b ?_
  by_cases hi : i = st.on t
  · subst hi
    simpa [State.lockOpaques] using hb
  · simpa [State.lockOpaques, hi] using hb

theorem Isolated.setMutation (h : Isolated st) (t : Nat) (lock : Option Nat) :
    Isolated (st.setMutation t lock) := by
  have hlocked : Isolated (st.lockTokens t lock) := h.congr h.provenance rfl rfl rfl rfl rfl
  exact hlocked.lockOpaques t lock

theorem Isolated.finish (h : Isolated st) (t : Nat) : Isolated (finish st t) :=
  (h.setMutation t none).goto trivial

theorem Isolated.putTokens (h : Isolated st) (t : Nat) (tokens : TokenSessions.State) :
    Isolated (st.putTokens t tokens) := by
  have htokens : Isolated { st with tokens := tokens } := h.congr h.provenance rfl rfl rfl rfl rfl
  exact htokens.lockOpaques t _

theorem Isolated.runTokens (h : Isolated st) (hs : runTokens st t answer = some st') :
    Isolated st' := by
  obtain ⟨tokens, -, rfl⟩ := Option.map_eq_some_iff.mp hs
  exact h.putTokens t tokens

theorem Isolated.startTokens (h : Isolated st) (t : Nat) (s : String) (op : TokenProtocol.Op) :
    Isolated (st.startTokens t s op) := h.congr h.provenance rfl rfl rfl rfl rfl

/-- Tokens that are put into the index were nobody's. -/
theorem Isolated.publish_mono (h : Isolated st) (t : Nat) (kind : OpaqueKind) (token s : String)
    (hold : st.minted kind token = some s) :
    publish st.minted (st.opaques.tasks t).pc kind token = some s := by
  have hne : ∀ token' ∈ st.carried t, token ≠ token' := fun token' htoken' heq => by
    rw [heq, h.pending.unminted t token' htoken' kind] at hold
    cases hold
  cases hpc : (st.opaques.tasks t).pc with
  | storeIndex s' m =>
    rw [State.carried, hpc] at hne
    have ha : token ≠ m.opaqueAccess := hne _ (List.mem_cons_self ..)
    have hr : token ≠ m.opaqueRefresh := hne _ (List.mem_cons_of_mem _ (List.mem_cons_self ..))
    cases kind with
    | access => exact (if_neg ha).trans hold
    | refresh => exact (if_neg hr).trans hold
  | _ => exact hold

/-- What is new was carried. -/
theorem publish_cases {token s : String} {kind : OpaqueKind}
    (h : publish st.minted (st.opaques.tasks t).pc kind token = some s) :
    st.minted kind token = some s ∨
      ∃ s' m, (st.opaques.tasks t).pc = .storeIndex s' m ∧ token = m.token kind := by
  cases hpc : (st.opaques.tasks t).pc with
  | storeIndex s' m =>
    rw [hpc] at h
    by_cases htoken : token = m.token kind
    · exact .inr ⟨s', m, rfl, htoken⟩
    · left
      cases kind with
      | access => exact (if_neg htoken).symm.trans h
      | refresh => exact (if_neg htoken).symm.trans h
  | _ =>
    rw [hpc] at h
    exact .inl h

theorem mem_carried_of_storeIndex {s : String} {m : PersistedOpaqueMapping}
    (hpc : (st.opaques.tasks t).pc = .storeIndex s m) (kind : OpaqueKind) :
    m.token kind ∈ st.carried t := by
  rw [State.carried, hpc]
  cases kind
  · exact List.mem_cons_self ..
  · exact List.mem_cons_of_mem _ (List.mem_cons_self ..)

/-- A token is put into the index as one of a kind. -/
theorem Isolated.publish_apart (h : Isolated st) (t : Nat) (token s s' : String)
    (haccess : publish st.minted (st.opaques.tasks t).pc .access token = some s) :
    publish st.minted (st.opaques.tasks t).pc .refresh token ≠ some s' := by
  intro hrefresh
  rcases publish_cases haccess with hold | ⟨s₁, m₁, hpc₁, htoken₁⟩ <;>
    rcases publish_cases hrefresh with hold' | ⟨s₂, m₂, hpc₂, htoken₂⟩
  · exact h.apart token s s' hold hold'
  · rw [htoken₂, h.pending.unminted t _ (mem_carried_of_storeIndex hpc₂ .refresh) .access] at hold
    cases hold
  · rw [htoken₁, h.pending.unminted t _ (mem_carried_of_storeIndex hpc₁ .access) .refresh] at hold'
    cases hold'
  · rw [hpc₁] at hpc₂
    cases hpc₂
    have hdistinct := h.pending.distinct t
    rw [State.carried, hpc₁] at hdistinct
    have hne : m₁.opaqueAccess ≠ m₁.opaqueRefresh := by
      simpa [OpaqueProtocol.Pc.carried] using hdistinct
    exact hne (htoken₁.symm.trans htoken₂)

/-- A rotation's tokens are no longer on their way once they are in the index. -/
theorem Isolated.publish_pending (h : Isolated st) {opaques : OpaqueProtocol.State}
    (hr : OpaqueProtocol.runSection st.opaques t (toOpaque answer) = some opaques)
    (hminted : st'.minted = publish st.minted (st.opaques.tasks t).pc)
    (hgenerated : st'.generated = st.generated) (hopaques : st'.opaques.tasks = opaques.tasks) :
    Pending st' := by
  have hlocal := OpaqueProtocol.runSection_local hr
  have hothers : ∀ u, u ≠ t → st'.carried u = st.carried u := fun u hu => by
    rw [State.carried, hopaques, hlocal.tasks u hu]
    rfl
  rcases (OpaqueProtocol.runSection_next hr).carried with hnil | ⟨s, a, r, ttl, hpc, hcarried⟩
  · -- The task carries nothing any more.
    have hnil : st'.carried t = [] := by rw [State.carried, hopaques, hnil]
    have hmem : ∀ u token, token ∈ st'.carried u → u ≠ t ∧ token ∈ st.carried u :=
      fun u token htoken => by
        have hu : u ≠ t := fun heq => by
          rw [heq, hnil] at htoken
          cases htoken
        exact ⟨hu, by rwa [← hothers u hu]⟩
    refine ⟨fun kind token s hs => ?_, fun u token htoken => ?_, fun u token htoken kind => ?_,
      fun u => ?_, fun u v huv token htoken hin => ?_⟩
    · rw [hminted] at hs
      rw [hgenerated]
      rcases publish_cases hs with hold | ⟨s', m, hpc, htoken⟩
      · exact h.pending.generated kind token s hold
      · rw [htoken]
        exact h.pending.carried t _ (mem_carried_of_storeIndex hpc kind)
    · rw [hgenerated]
      exact h.pending.carried u token (hmem u token htoken).2
    · obtain ⟨hu, htoken⟩ := hmem u token htoken
      rw [hminted]
      cases hs : publish st.minted (st.opaques.tasks t).pc kind token with
      | none => rfl
      | some s =>
        rcases publish_cases hs with hold | ⟨s', m, hpc, heq⟩
        · rw [h.pending.unminted u token htoken kind] at hold
          cases hold
        · rw [heq] at htoken
          exact absurd (mem_carried_of_storeIndex hpc kind)
            (h.pending.disjoint u t hu _ htoken)
    · by_cases hu : u = t
      · rw [hu, hnil]
        exact .nil
      · rw [hothers u hu]
        exact h.pending.distinct u
    · exact h.pending.disjoint u v huv token (hmem u token htoken).2 (hmem v token hin).2
  · -- The rotation has the lock now, and carries the same tokens.
    have hminted' : st'.minted = st.minted := by rw [hminted, hpc]; rfl
    refine h.pending.shrink hminted' hgenerated hothers (.inr ?_)
    rw [State.carried, hopaques, hcarried, State.carried, hpc]
    rfl

/-- A task runs a section of the opaque half. -/
theorem Isolated.runOpaques (h : Isolated st)
    (hsuits : ∀ (minted : Minted) (opaques : OpaqueProtocol.State),
      (∀ kind token s, st.minted kind token = some s → minted kind token = some s) →
        OpaqueProtocol.runSection st.opaques t (toOpaque answer) = some opaques →
          Suits minted (opaques.tasks t).pc (st.tasks t).pc)
    (hs : runOpaques st t answer = some st') : Isolated st' := by
  obtain ⟨opaques, hr, rfl⟩ := Option.map_eq_some_iff.mp hs
  have hlocal := OpaqueProtocol.runSection_local hr
  have hmono := h.publish_mono t
  refine ⟨(h.provenance.mono hmono).run (fun s m hpc kind => ?_) hr,
    h.publish_pending hr rfl rfl rfl, fun u => ?_, h.publish_apart t, fun a ha s hs => ?_⟩
  · rw [hpc]
    cases kind <;> exact if_pos rfl
  · by_cases hut : u = t
    · rw [hut]
      exact hsuits _ opaques hmono hr
    · have hsame : (opaques.tasks u).pc = (st.opaques.tasks u).pc := by rw [hlocal.tasks u hut]
      have hu := (h.phase u).mono hmono
      rw [← hsame] at hu
      exact hu
  · exact hmono _ _ _ (h.answers a ha s hs)

theorem carried_startAt {pc' : OpaqueProtocol.Pc} {prior : List OpaqueProtocol.Issue} :
    (∀ u, u ≠ t → ((st.startAt t pc' prior).goto t pc).carried u = st.carried u) ∧
      ((st.startAt t pc' prior).goto t pc).carried t = pc'.carried := by
  constructor
  · intro u hu
    simp [State.carried, State.goto, State.startAt, OpaqueProtocol.State.setTask, hu]
  · simp [State.carried, State.goto, State.startAt, OpaqueProtocol.State.setTask]

theorem suits_startAt {pc' : OpaqueProtocol.Pc} {prior : List OpaqueProtocol.Issue}
    (h : ∀ u, Suits minted (st.opaques.tasks u).pc (st.tasks u).pc) (hsuits : Suits minted pc' pc)
    (u : Nat) : Suits minted (((st.startAt t pc' prior).goto t pc).opaques.tasks u).pc
      (((st.startAt t pc' prior).goto t pc).tasks u).pc := by
  by_cases hut : u = t
  · subst hut
    simpa [State.goto, State.startAt, OpaqueProtocol.State.setTask] using hsuits
  · have hu := h u
    simpa [State.goto, State.startAt, OpaqueProtocol.State.setTask, hut] using hu

/-- A task starts an operation of the opaque half that has no tokens to put in. -/
theorem Isolated.startAt (h : Isolated st) {pc' : OpaqueProtocol.Pc}
    {prior : List OpaqueProtocol.Issue} (hcarried : pc'.carried = [])
    (hcarries : Carries st.minted pc') (hsuits : Suits st.minted pc' pc) :
    Isolated ((st.startAt t pc' prior).goto t pc) :=
  ⟨h.provenance.setTask hcarries,
    h.pending.shrink rfl rfl carried_startAt.1 (.inl (carried_startAt.2.trans hcarried)),
    suits_startAt h.phase hsuits, h.apart, h.answers⟩

theorem Isolated.noted (h : Isolated st) {kind : OpaqueKind} {token : String}
    {result : Option String} (hm : ∀ s, result = some s → st.minted kind token = some s) :
    Isolated (answered st kind token result) where
  provenance := h.provenance
  pending := h.pending.congr rfl rfl rfl
  phase := h.phase
  apart := h.apart
  answers := fun a ha s hs => by
    rcases List.mem_cons.mp ha with rfl | ha
    · exact hm s hs
    · exact h.answers a ha s hs

theorem Isolated.setIndex (h : Isolated st) {index : OpaqueIndex}
    (hindex : ∀ kind token b, index.toSession kind token = some b →
      st.minted kind token = some b.sessionId) : Isolated (st.setIndex t index) := by
  refine h.congr ⟨fun i kind token b hb => ?_, h.provenance.forward, h.provenance.tasks⟩ rfl rfl rfl
    rfl rfl
  by_cases hi : i = st.on t
  · subst hi
    simp only [State.setIndex, Function.update_self] at hb
    exact hindex kind token b hb
  · simp only [State.setIndex, Function.update_of_ne hi] at hb
    exact h.provenance.index i kind token b hb

theorem Isolated.deleteRecord (h : Isolated st) (answer : Answer) (s : String) :
    Isolated (st.deleteRecord answer s) := by
  unfold State.deleteRecord
  split
  · exact h.congr h.provenance rfl rfl rfl rfl rfl
  · exact h

theorem Isolated.deleteMapping (h : Isolated st) (answer : Answer) (s : String) :
    Isolated (st.deleteMapping answer s) := by
  unfold State.deleteMapping
  split
  · exact h.congr (h.provenance.setForward fun m hm => by cases hm) rfl rfl rfl rfl rfl
  · exact h

theorem Isolated.deleteInverse (h : Isolated st) (answer : Answer) (kind : OpaqueKind)
    (token : String) : Isolated (st.deleteInverse answer kind token) := by
  unfold State.deleteInverse
  split
  · exact h.congr (h.provenance.setInverse kind token none) rfl rfl rfl rfl rfl
  · exact h

theorem Isolated.ghost (h : Isolated st) (holders spent : List Holder)
    (purgedLive orphanedLive : Bool) :
    Isolated { st with holders := holders, spent := spent, purgedLive := purgedLive,
                       orphanedLive := orphanedLive } :=
  h.congr h.provenance rfl rfl rfl rfl rfl

/-! ### The steps -/

/-- The answer of a resolve is the session its token was minted for. -/
theorem minted_of_result {kind : OpaqueKind} {token s : String}
    (hphase : Resolves st.minted kind token (st.opaques.tasks t).pc)
    (hresult : st.opaqueResult t = some (some s)) : st.minted kind token = some s := by
  rw [opaqueResult_eq_some hresult] at hphase
  exact hphase

theorem Isolated.grantSection (h : Isolated st) {r : String}
    (hpc : (st.tasks t).pc = .grantResolve r) (hs : grantSection st t r answer = some st') :
    Isolated st' := by
  have hphase := h.phase t
  rw [hpc] at hphase
  unfold StoreProtocol.grantSection at hs
  split at hs
  · cases hs
    have hanswered : Isolated (answered st .refresh r none) :=
      h.noted fun _ hnone => by cases hnone
    exact hanswered.goto trivial
  · rename_i s hresult
    cases hs
    have hminted := minted_of_result hphase hresult
    have hanswered : Isolated (answered st .refresh r (some s)) := h.noted fun s' hsome => by
      cases hsome
      exact hminted
    exact (hanswered.startTokens t s .get).goto hminted
  · obtain ⟨mid, hmid, rfl⟩ := Option.map_eq_some_iff.mp hs
    have hrun : Isolated mid := h.runOpaques (fun minted opaques hm hr => by
      rw [hpc]
      exact (OpaqueProtocol.runSection_next hr).resolves (h.provenance.mono hm)
        (Resolves.mono hm hphase)) hmid
    split
    · exact hrun.ghost _ _ _ _
    · exact hrun

theorem Isolated.storeSection (h : Isolated st) {grant : Option String}
    (hpc : (st.tasks t).pc = .storeMapping grant) (hs : storeSection st t grant answer = some st') :
    Isolated st' := by
  unfold StoreProtocol.storeSection at hs
  split at hs
  · cases hs
    refine h.goto ?_
    cases grant <;> trivial
  · obtain ⟨mid, hmid, rfl⟩ := Option.map_eq_some_iff.mp hs
    have hrun : Isolated mid := h.runOpaques (fun _ _ _ _ => by rw [hpc]; trivial) hmid
    split
    · exact hrun.ghost _ _ _ _
    · exact hrun

theorem thins_removeSessions (index : OpaqueIndex) (sessionIds : List String) :
    index.Thins (removeSessions index sessionIds).1 := by
  unfold removeSessions
  refine List.foldlRecOn
    (motive := fun r : OpaqueIndex × List (OpaqueKind × String) => index.Thins r.1)
    sessionIds _ (.refl index) fun r hthins s _ => ?_
  have hremove := hthins.trans (r.1.thins_removeSession s)
  cases hremoved : r.1.removeSession s with
  | mk index' mapping =>
    rw [hremoved] at hremove
    cases mapping <;> simpa only [hremoved] using hremove

theorem Isolated.purgeSection (h : Isolated st) (hs : purgeSection st t answer = some st') :
    Isolated st' := by
  unfold StoreProtocol.purgeSection at hs
  split at hs <;> cases hs
  · have hmemory : ∀ tokens locks, Isolated (st.setMemory t tokens locks) :=
      fun _ _ => h.congr h.provenance rfl rfl rfl rfl rfl
    exact (hmemory _ _).goto trivial
  · rename_i expiredKeys hpc
    have hindex : Isolated (st.setIndex t (removeSessions (st.index t) expiredKeys).1) :=
      h.setIndex fun kind token b hb =>
        h.provenance.index (st.on t) kind token b
          ((thins_removeSessions _ expiredKeys).toSession kind token b hb)
    exact hindex.goto trivial
  · exact h.goto trivial
  · rename_i key expiredKeys drops hpc
    have hgoto : Isolated ((st.deleteRecord answer key).goto t
      (.purgeMapping key expiredKeys drops)) := (h.deleteRecord answer key).goto trivial
    exact hgoto.ghost _ _ _ _
  · rename_i key expiredKeys drops hpc
    have hgoto : Isolated ((st.deleteMapping answer key).goto t
      (.purgeToken expiredKeys drops)) := (h.deleteMapping answer key).goto trivial
    exact hgoto.ghost _ _ _ _
  · exact h.finish t
  · exact (h.deleteInverse answer _ _).goto trivial

theorem Isolated.loadTokenSection (h : Isolated st)
    (hs : loadTokenSection st t answer = some st') : Isolated st' := by
  unfold StoreProtocol.loadTokenSection at hs
  split at hs
  · cases hs
    have hmemory : ∀ tokens locks, Isolated (st.setMemory t tokens locks) :=
      fun _ _ => h.congr h.provenance rfl rfl rfl rfl rfl
    exact (hmemory _ _).goto trivial
  · split at hs
    · cases hs
      exact h.finish t
    · cases hs
      exact h.goto trivial
    · simp only at hs
      split at hs <;> cases hs <;> exact h.goto trivial
  · cases hs
    exact (h.deleteRecord answer _).goto trivial
  · cases hs

theorem Isolated.loadMappingSection (h : Isolated st)
    (hs : loadMappingSection st t answer = some st') : Isolated st' := by
  have hphase := h.phase t
  unfold StoreProtocol.loadMappingSection at hs
  split at hs
  · cases hs
    exact h.goto fun _ he => by cases he
  · rename_i valid entries hpc
    rw [hpc] at hphase
    cases hs
    have hindex : Isolated (st.setIndex t
        (entries.foldl (fun index e => index.insert st.clock e.1 e.2) (st.index t))) :=
      h.setIndex fun kind token b hb => by
        rcases OpaqueIndex.toSession_of_inserted hb with ⟨e, he, hs, htoken⟩ | hold
        · rw [hs, ← htoken]
          exact hphase e he kind
        · exact h.provenance.index (st.on t) kind token b hold
    exact hindex.finish t
  · rename_i s keys valid entries hpc
    rw [hpc] at hphase
    simp only at hs
    split at hs
    · cases hs
      exact h.finish t
    · cases hs
      exact h.goto hphase
    · rename_i m hm
      split at hs
      · cases hs
        exact h.goto hphase
      · split at hs <;> cases hs
        · exact h.goto hphase
        · refine h.goto fun e he => ?_
          rcases List.mem_append.mp he with he | he
          · exact hphase e he
          · -- The one that is kept was read under its session.
            rw [List.mem_singleton.mp he]
            exact h.provenance.forward s m hm
  · rename_i dropped boot hpc
    rw [hpc] at hphase
    cases hs
    have hdeleted := h.deleteMapping answer dropped.sessionId
    have hminted : (st.deleteMapping answer dropped.sessionId).minted = st.minted := by
      unfold State.deleteMapping
      split <;> rfl
    have hgoto : Isolated ((st.deleteMapping answer dropped.sessionId).goto t
        (.loadDropInverse .access dropped.mapping boot)) := by
      refine hdeleted.goto ?_
      rw [hminted]
      exact hphase
    exact hgoto.ghost _ _ _ _
  · rename_i kind m boot hpc
    rw [hpc] at hphase
    cases hs
    have hminted : (st.deleteInverse answer kind (m.token kind)).minted = st.minted := by
      unfold State.deleteInverse
      split <;> rfl
    refine (h.deleteInverse answer kind (m.token kind)).goto ?_
    rw [hminted]
    cases kind <;> exact hphase
  · cases hs

theorem Isolated.run (h : Isolated st) (hs : runSection st t answer = some st') : Isolated st' := by
  have hphase := h.phase t
  cases hpc : (st.tasks t).pc with
  | idle => simp [runSection, hpc] at hs
  | mint s ttl grant => simp [runSection, hpc] at hs
  | purgeScan => simp [runSection, hpc] at hs
  | granted r => simp [runSection, hpc] at hs
  | done => simp [runSection, hpc] at hs
  | token | removeTokenRecord =>
    simp only [runSection, hpc] at hs
    exact h.runTokens hs
  | loginToken s expires =>
    simp only [runSection, hpc] at hs
    split at hs
    · cases hs
      exact h.goto trivial
    · exact h.runTokens hs
  | grantResolve r =>
    simp only [runSection, hpc] at hs
    exact h.grantSection hpc hs
  | grantToken r s =>
    rw [hpc] at hphase
    simp only [runSection, hpc] at hs
    split at hs
    · cases hs
      exact h.goto hphase
    · cases hs
      have hreleased : Isolated (release st t) := h.ghost _ _ _ _
      exact hreleased.startAt rfl trivial trivial
    · exact h.runTokens hs
  | storeMapping grant =>
    simp only [runSection, hpc] at hs
    exact h.storeSection hpc hs
  | removeMapping =>
    simp only [runSection, hpc] at hs
    exact h.runOpaques (fun _ _ _ _ => by rw [hpc]; trivial) hs
  | resolve kind token =>
    rw [hpc] at hphase
    simp only [runSection, hpc] at hs
    split at hs
    · rename_i result hresult
      cases hs
      have hnoted : Isolated (answered st kind token result) := h.noted fun s hs => by
        rw [hs] at hresult
        exact minted_of_result hphase hresult
      exact hnoted.goto trivial
    · exact h.runOpaques (fun minted opaques hm hr => by
        rw [hpc]
        exact (OpaqueProtocol.runSection_next hr).resolves (h.provenance.mono hm)
          (Resolves.mono hm hphase)) hs
  | removeToken s =>
    simp only [runSection, hpc] at hs
    split at hs
    · cases hs
      exact h.startAt rfl trivial trivial
    · exact h.runTokens hs
  | removeTokenMapping =>
    simp only [runSection, hpc] at hs
    obtain ⟨mid, hmid, rfl⟩ := Option.map_eq_some_iff.mp hs
    have hrun : Isolated mid := h.runOpaques (fun _ _ _ _ => by rw [hpc]; trivial) hmid
    split
    · exact (hrun.setMutation t (some t)).goto trivial
    · exact hrun
  | purgeLock | loadLock =>
    simp only [runSection, hpc, lockSection] at hs
    split at hs <;> cases hs
    exact (h.setMutation t (some t)).goto trivial
  | loadKeys | loadMappingKeys =>
    simp only [runSection, hpc] at hs
    split at hs <;> cases hs
    exact h.finish t
  | purgeMemory keys | purgeIndex keys | purgeToken keys drops | purgeMapping key keys drops
  | purgeInverse drops =>
    simp only [runSection, hpc] at hs
    exact h.purgeSection hs
  | loadTokens keys entries | loadDropToken key keys entries =>
    simp only [runSection, hpc] at hs
    exact h.loadTokenSection hs
  | loadSnapshot keys | loadMappings boot | loadDropMapping dropped boot
  | loadDropInverse kind m boot =>
    simp only [runSection, hpc] at hs
    exact h.loadMappingSection hs

theorem Isolated.listSection (h : Isolated st) {keys : List String}
    (hs : listSection st t keys = some st') : Isolated st' := by
  unfold StoreProtocol.listSection at hs
  split at hs
  · split at hs
    · split at hs <;> cases hs
      · exact h.finish t
      · exact h.goto trivial
    · cases hs
  · split at hs <;> cases hs
    exact h.goto trivial
  · split at hs <;> cases hs
    exact h.goto trivial
  · cases hs

/-- A rotation starts with tokens that are not in any index. -/
theorem Isolated.mintSection (h : Isolated st) {a r : String}
    (hs : mintSection st t a r = some st') : Isolated st' := by
  simp only [StoreProtocol.mintSection] at hs
  split at hs
  · split at hs <;> cases hs
    rename_i hfresh
    obtain ⟨hne, ha, hr⟩ := hfresh
    exact ⟨h.provenance.setTask trivial,
      h.pending.grow hne ha hr rfl rfl carried_startAt.1 carried_startAt.2,
      suits_startAt h.phase trivial, h.apart, h.answers⟩
  · cases hs

theorem Isolated.begin (h : Isolated st) (op : Op) : Isolated (op.begin st t) := by
  cases op with
  | getToken s => exact (h.startTokens t s .get).goto trivial
  | peekToken s => exact (h.startTokens t s .peek).goto trivial
  | storeToken s token => exact (h.startTokens t s (.store token)).goto trivial
  | removeToken s => exact (h.startTokens t s .remove).goto trivial
  | purgeExpired => exact h.goto trivial
  | loadPersisted => exact h.goto trivial
  | storeMapping s ttl => exact h.goto trivial
  | removeMapping s => exact h.startAt rfl trivial trivial
  | resolve kind token => exact h.startAt rfl trivial ⟨rfl, rfl⟩
  | login s token expires => exact (h.startTokens t s (.store token)).goto trivial
  | refreshGrant r => exact h.startAt rfl trivial ⟨rfl, rfl⟩

theorem Isolated.step (h : Isolated st) (hs : step st l = some st') : Isolated st' := by
  cases l with
  | tick d unix =>
    cases hs
    exact h.congr ⟨h.provenance.index, h.provenance.forward, h.provenance.tasks⟩ rfl rfl rfl rfl rfl
  | call t inst op =>
    simp only [StoreProtocol.step] at hs
    split at hs <;> cases hs
    have hidle : Isolated
        { st with tasks := Function.update st.tasks t { inst := inst, pc := .idle }
                  called := t :: st.called } :=
      ⟨h.provenance, h.pending.congr rfl rfl rfl, (forall_update_iff (P := fun u (task : Task) =>
        Suits st.minted (st.opaques.tasks u).pc task.pc)).mpr ⟨trivial, fun u _ => h.phase u⟩,
        h.apart, h.answers⟩
    exact hidle.begin op
  | run t answer => exact h.run hs
  | reply t response =>
    simp only [StoreProtocol.step, Option.ite_none_right_eq_some] at hs
    obtain ⟨tokens, -, rfl⟩ := Option.map_eq_some_iff.mp hs.2
    exact h.putTokens t tokens
  | list t keys => exact h.listSection hs
  | mint t a r => exact h.mintSection hs
  | lapse s =>
    simp only [StoreProtocol.step] at hs
    split at hs
    · split at hs <;> cases hs
      exact h.congr h.provenance rfl rfl rfl rfl rfl
    · cases hs
  | lapseMapping s =>
    cases hs
    exact h.congr (h.provenance.setForward fun m hm => by cases hm) rfl rfl rfl rfl rfl
  | lapseInverse kind token =>
    cases hs
    exact h.congr (h.provenance.setInverse kind token none) rfl rfl rfl rfl rfl

end Isolated

/-! ## Every run -/

section Runs

variable {clock : Clock} {refreshConfig : Bool} {st : State}

end Runs

end StoreProtocol
end McpFramework
