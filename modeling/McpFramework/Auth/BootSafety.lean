import McpFramework.Auth.StoreMutex

/-!
# Auth — BootSafety

What the orphan cleanup of `load_persisted` deletes.

A boot lists and reads the tokens, then lists the opaque mappings and takes the
ones without a token in memory for orphans. Between the two listings peers go on:
a login that they make then has a mapping and no token here. Of any session that
no such login is made of, the boot knows the token before it looks at the
mapping.
-/

namespace McpFramework.StoreProtocol

open Lib
open TokenProtocol (Answer)

/-! ## Boots under way -/

/-- A boot has listed the tokens. -/
def Pc.booting : Pc → Bool
  | .loadTokens _ _ => true
  | .loadDropToken _ _ _ => true
  | .loadMappingKeys => true
  | .loadSnapshot _ => true
  | .loadMappings _ => true
  | .loadDropMapping _ _ => true
  | .loadDropInverse _ _ _ => true
  | _ => false

/-- The session has a token in memory, or its mapping is not to be looked at. -/
def Boot.spares (boot : Boot) (sessionId : String) : Bool :=
  !decide (sessionId ∈ boot.keys) || decide (sessionId ∈ boot.validSessions)

/-- A boot at this point, with a token of the session in memory or without, will
not take its mapping for an orphan. -/
def Pc.spares (remembered : Bool) (sessionId : String) : Pc → Bool
  | .loadTokens keys entries =>
    decide (sessionId ∈ keys) || decide (sessionId ∈ entries.map (·.1)) || remembered
  | .loadDropToken _ keys entries =>
    decide (sessionId ∈ keys) || decide (sessionId ∈ entries.map (·.1)) || remembered
  | .loadMappingKeys => remembered
  | .loadSnapshot keys => !decide (sessionId ∈ keys) || remembered
  | .loadMappings boot => boot.spares sessionId
  | .loadDropMapping dropped boot =>
    boot.spares sessionId && !(dropped.orphan && decide (dropped.sessionId = sessionId))
  | .loadDropInverse _ _ boot => boot.spares sessionId
  | _ => true

def State.spares (st : State) (t : Nat) (sessionId : String) : Bool :=
  (st.tasks t).pc.spares ((st.memory t).containsKey sessionId) sessionId

/-- While a boot is under way no live record is persisted of a session that the
boot would miss, and the system clock is not set back. -/
def acquainted (st : State) (l : Label) : Bool :=
  match l with
  | .tick _ unix =>
    decide (st.clock.unix ≤ unix) || st.called.all fun t => !(st.tasks t).pc.booting
  | _ =>
    match persisting st l with
    | some (sessionId, p) => !p.live st.clock || st.called.all fun t => st.spares t sessionId
    | none => true

/-! ## The invariants -/

/-- The keys that are listed are all there are. -/
structure Recorded (st : State) : Prop where
  record : ∀ s, (st.record s).isSome = true → s ∈ st.sessionIds
  tasks : ∀ t s pc, (st.tokens.tasks t).pc = .on s pc → s ∈ st.sessionIds

structure BootSafe (st : State) : Prop where
  spared : ∀ t s, st.live s = true → st.spares t s = true
  safe : st.orphanedLive = false

section BootSafe

variable {st st' mid : State} {t u : Nat} {pc : Pc} {s : String} {answer : Answer} {l : Label}
  {written : Option (String × PersistedToken)}

theorem Records.live (h : Records st st' t written) (hlive : st'.live s = true) :
    st.live s = true ∨ ∃ p, written = some (s, p) ∧ p.live st.clock = true := by
  obtain ⟨p, hp, hlive⟩ := (Option.any_eq_true _ _).mp hlive
  rw [h.clock] at hlive
  rcases h.record s with hsame | hnone | ⟨p', hwritten, hp'⟩
  · rw [hsame] at hp
    exact .inl ((Option.any_eq_true _ _).mpr ⟨p, hp, hlive⟩)
  · rw [hnone] at hp
    cases hp
  · rw [hp'] at hp
    cases hp
    exact .inr ⟨p, hwritten, hlive⟩

theorem persisting_session {p : PersistedToken} (h : persisting st l = some (s, p)) :
    ∃ t pc, (st.tokens.tasks t).pc = .on s pc := by
  unfold persisting at h
  split at h
  · rename_i t
    split at h
    · rename_i s' writer p' hpc
      cases h
      exact ⟨t, _, hpc⟩
    · cases h
  · cases h

theorem Recorded.turn (h : Recorded st) (hturn : Turn st st' t written)
    (hwritten : ∀ s p, written = some (s, p) → ∃ t pc, (st.tokens.tasks t).pc = .on s pc) :
    Recorded st' where
  record := fun s hs => by
    rcases hturn.records.record s with hsame | hnone | ⟨p, hp, -⟩
    · rw [hsame] at hs
      exact hturn.records.named s (h.record s hs)
    · rw [hnone] at hs
      cases hs
    · obtain ⟨u, pc, hpc⟩ := hwritten s p hp
      exact hturn.records.named s (h.tasks u s pc hpc)
  tasks := fun u s pc hpc => by
    by_cases hu : u = t
    · subst hu
      rcases hturn.records.working s pc hpc with hs | ⟨pc', hpc'⟩
      · exact hs
      · exact hturn.records.named s (h.tasks u s pc' hpc')
    · rw [hturn.tokens u hu] at hpc
      exact hturn.records.named s (h.tasks u s pc hpc)

theorem Recorded.step (h : Recorded st) (hex : Exclusive st) (hs : step st l = some st') :
    Recorded st' := by
  have hnone : ∀ s p, (none : Option (String × PersistedToken)) = some (s, p) →
      ∃ t pc, (st.tokens.tasks t).pc = .on s pc := fun _ _ h => by cases h
  cases l with
  | tick d unix =>
    cases hs
    exact ⟨h.record, h.tasks⟩
  | call t inst op =>
    simp only [StoreProtocol.step] at hs
    split at hs <;> cases hs
    have hcalled : Recorded
        { st with tasks := Function.update st.tasks t { inst := inst, pc := .idle }
                  called := t :: st.called } := ⟨h.record, h.tasks⟩
    exact hcalled.turn (.begin (hex.call inst _) (by simp) op) hnone
  | run t answer => exact h.turn (.run hex hs) fun _ _ => persisting_session
  | reply t response =>
    simp only [StoreProtocol.step, Option.ite_none_right_eq_some] at hs
    obtain ⟨tokens, hreply, rfl⟩ := Option.map_eq_some_iff.mp hs.2
    exact h.turn (.reply hex hs.1 hreply) hnone
  | list t keys => exact h.turn (.listSection hex hs) hnone
  | mint t a r => exact h.turn (.mintSection hex hs) hnone
  | lapse s =>
    simp only [StoreProtocol.step] at hs
    split at hs
    · split at hs <;> cases hs
      refine ⟨fun s' hs' => ?_, h.tasks⟩
      rcases TokenSessions.record_deleteRecord (s := s') st.tokens s with hsame | hgone
      · rw [State.record, hsame] at hs'
        exact h.record s' hs'
      · rw [State.record, hgone] at hs'
        cases hs'
    · cases hs
  | lapseMapping s | lapseInverse kind token =>
    cases hs
    exact ⟨h.record, h.tasks⟩

/-! ### One step of one task -/

theorem spares_of_aside (hpc : (st.tasks t).pc.booting = false) : st.spares t s = true := by
  unfold State.spares
  cases h : (st.tasks t).pc <;> rw [h] at hpc <;> first | rfl | cases hpc

theorem spares_goto (mid : State) (t : Nat) (pc : Pc) (s : String) :
    (mid.goto t pc).spares t s = pc.spares ((mid.memory t).containsKey s) s := by
  rw [State.spares, goto_tasks, memory_goto]

/-- A boot is under the mutation lock. -/
theorem inMutation_of_booting (hpc : (st.tasks t).pc.booting = true) : st.inMutation t = true := by
  have hhalf : (st.tasks t).pc.half = .neither ∧ (st.tasks t).pc.holds = true := by
    cases h : (st.tasks t).pc <;> rw [h] at hpc <;> first | exact ⟨rfl, rfl⟩ | cases hpc
  rw [inMutation_of_neither hhalf.1, hhalf.2]

/-- A token in memory makes a boot spare no less. -/
theorem Pc.spares_mono {remembered remembered' : Bool}
    (hmem : remembered = true → remembered' = true) (h : pc.spares remembered s = true) :
    pc.spares remembered' s = true := by
  cases remembered with
  | true =>
    rw [hmem rfl]
    exact h
  | false =>
    cases remembered' with
    | false => exact h
    | true => cases pc <;> simp_all [Pc.spares]

/-- The other boots know no less after a step of one task. -/
theorem spares_of_ne (hex : Exclusive st) (hturn : Turn st st' t written) (hu : u ≠ t)
    (h : st.spares u s = true) : st'.spares u s = true := by
  cases hbooting : (st.tasks u).pc.booting with
  | false => exact spares_of_aside (by rw [hturn.tasks u hu, hbooting])
  | true =>
    unfold State.spares at h ⊢
    rw [hturn.tasks u hu]
    exact Pc.spares_mono (hturn.keeps_of_ne hex (inMutation_of_booting hbooting) hu) h

theorem BootSafe.turn (h : BootSafe st) (hex : Exclusive st) (hturn : Turn st st' t written)
    (hwritten : ∀ s p, written = some (s, p) → p.live st.clock = true → ∀ u, st.spares u s = true)
    (hself : ∀ s, st'.live s = true → (st.live s = true ∨ ∀ u, st.spares u s = true) →
      st'.spares t s = true)
    (hsafe : st'.orphanedLive = false) : BootSafe st' where
  spared := fun u s hlive => by
    have hold : st.live s = true ∨ ∀ u, st.spares u s = true := by
      rcases hturn.records.live hlive with hold | ⟨p, hp, hfresh⟩
      · exact .inl hold
      · exact .inr (hwritten s p hp hfresh)
    by_cases hu : u = t
    · rw [hu]
      exact hself s hlive hold
    · refine spares_of_ne hex hturn hu ?_
      rcases hold with hold | hall
      · exact h.spared u s hold
      · exact hall u
  safe := hsafe

/-! ### Away from a boot -/

/-- A task that is not booting has gone on to where it is not either. -/
structure Aside (st st' : State) (t : Nat) : Prop where
  pc : (st'.tasks t).pc.booting = false
  orphaned : st'.orphanedLive = st.orphanedLive

theorem Aside.goto (hpc : pc.booting = false) (horphaned : mid.orphanedLive = st.orphanedLive) :
    Aside st (mid.goto t pc) t :=
  ⟨by rw [goto_tasks, hpc], horphaned⟩

theorem Aside.runTokens (hpc : (st.tasks t).pc.booting = false)
    (hs : runTokens st t answer = some st') : Aside st st' t := by
  obtain ⟨tokens, -, rfl⟩ := Option.map_eq_some_iff.mp hs
  exact ⟨hpc, rfl⟩

theorem Aside.runOpaques (hpc : (st.tasks t).pc.booting = false)
    (hs : runOpaques st t answer = some st') : Aside st st' t := by
  obtain ⟨opaques, -, rfl⟩ := Option.map_eq_some_iff.mp hs
  exact ⟨hpc, rfl⟩

theorem orphanedLive_deleteRecord (key : String) :
    (st.deleteRecord answer key).orphanedLive = st.orphanedLive := by
  unfold State.deleteRecord
  split <;> rfl

theorem orphanedLive_deleteMapping (key : String) :
    (st.deleteMapping answer key).orphanedLive = st.orphanedLive := by
  unfold State.deleteMapping
  split <;> rfl

theorem orphanedLive_deleteInverse (kind : OpaqueKind) (token : String) :
    (st.deleteInverse answer kind token).orphanedLive = st.orphanedLive := by
  unfold State.deleteInverse
  split <;> rfl

theorem Aside.purgeSection (hs : purgeSection st t answer = some st') : Aside st st' t := by
  unfold StoreProtocol.purgeSection at hs
  split at hs <;> cases hs
  · exact .goto rfl rfl
  · exact .goto rfl rfl
  · exact .goto rfl rfl
  · rename_i key keys drops hpc
    have hgoto : Aside st ((st.deleteRecord answer key).goto t (.purgeMapping key keys drops)) t :=
      .goto rfl (orphanedLive_deleteRecord key)
    exact ⟨hgoto.pc, hgoto.orphaned⟩
  · rename_i key keys drops hpc
    have hgoto : Aside st ((st.deleteMapping answer key).goto t (.purgeToken keys drops)) t :=
      .goto rfl (orphanedLive_deleteMapping key)
    exact ⟨hgoto.pc, hgoto.orphaned⟩
  · exact .goto rfl rfl
  · exact .goto rfl (orphanedLive_deleteInverse _ _)

theorem Aside.grantSection {r : String} (hpc : (st.tasks t).pc.booting = false)
    (hs : grantSection st t r answer = some st') : Aside st st' t := by
  unfold StoreProtocol.grantSection at hs
  split at hs
  · cases hs
    exact .goto rfl rfl
  · cases hs
    exact .goto rfl rfl
  · obtain ⟨mid, hmid, rfl⟩ := Option.map_eq_some_iff.mp hs
    have hrun := Aside.runOpaques hpc hmid
    split
    · exact ⟨hrun.pc, hrun.orphaned⟩
    · exact hrun

theorem Aside.storeSection {grant : Option String} (hpc : (st.tasks t).pc.booting = false)
    (hs : storeSection st t grant answer = some st') : Aside st st' t := by
  unfold StoreProtocol.storeSection at hs
  split at hs
  · cases hs
    cases grant <;> exact .goto rfl rfl
  · obtain ⟨mid, hmid, rfl⟩ := Option.map_eq_some_iff.mp hs
    have hrun := Aside.runOpaques hpc hmid
    split
    · exact ⟨hrun.pc, hrun.orphaned⟩
    · exact hrun

theorem Aside.lockSection (hpc : pc.booting = false) (hs : lockSection st t pc = some st') :
    Aside st st' t := by
  unfold StoreProtocol.lockSection at hs
  split at hs <;> cases hs
  exact .goto hpc rfl

theorem Aside.run (hout : (st.tasks t).pc.booting = false)
    (hs : runSection st t answer = some st') : Aside st st' t := by
  cases hpc : (st.tasks t).pc with
  | idle => simp [runSection, hpc] at hs
  | mint s ttl grant => simp [runSection, hpc] at hs
  | purgeScan => simp [runSection, hpc] at hs
  | granted r => simp [runSection, hpc] at hs
  | done => simp [runSection, hpc] at hs
  | token | removeTokenRecord =>
    simp only [runSection, hpc] at hs
    exact .runTokens hout hs
  | loginToken s expires =>
    simp only [runSection, hpc] at hs
    split at hs
    · cases hs
      exact .goto rfl rfl
    · exact .runTokens hout hs
  | grantResolve r =>
    simp only [runSection, hpc] at hs
    exact .grantSection hout hs
  | grantToken r s =>
    simp only [runSection, hpc] at hs
    split at hs
    · cases hs
      exact .goto rfl rfl
    · cases hs
      exact .goto rfl rfl
    · exact .runTokens hout hs
  | storeMapping grant =>
    simp only [runSection, hpc] at hs
    exact .storeSection hout hs
  | removeMapping =>
    simp only [runSection, hpc] at hs
    exact .runOpaques hout hs
  | resolve kind token =>
    simp only [runSection, hpc] at hs
    split at hs
    · cases hs
      exact .goto rfl rfl
    · exact .runOpaques hout hs
  | removeToken s =>
    simp only [runSection, hpc] at hs
    split at hs
    · cases hs
      exact .goto rfl rfl
    · exact .runTokens hout hs
  | removeTokenMapping =>
    simp only [runSection, hpc] at hs
    obtain ⟨mid, hmid, rfl⟩ := Option.map_eq_some_iff.mp hs
    have hrun := Aside.runOpaques hout hmid
    split
    · exact .goto rfl hrun.orphaned
    · exact hrun
  | purgeLock | loadLock =>
    simp only [runSection, hpc] at hs
    exact .lockSection rfl hs
  | loadKeys =>
    simp only [runSection, hpc] at hs
    split at hs <;> cases hs
    exact .goto rfl rfl
  | purgeMemory keys | purgeIndex keys | purgeToken keys drops | purgeMapping key keys drops
  | purgeInverse drops =>
    simp only [runSection, hpc] at hs
    exact .purgeSection hs
  | _ =>
    -- What is left are the sections of a boot.
    rw [hpc] at hout
    cases hout

theorem Aside.begin (op : Op) : Aside st (op.begin st t) t := by
  cases op <;> exact .goto rfl rfl

theorem Aside.mintSection {a r : String} (hs : mintSection st t a r = some st') :
    Aside st st' t := by
  simp only [StoreProtocol.mintSection] at hs
  split at hs
  · split at hs <;> cases hs
    exact .goto rfl rfl
  · cases hs

/-- Away from a boot nothing is to be shown of the task itself. -/
theorem BootSafe.aside (h : BootSafe st) (hex : Exclusive st) (hturn : Turn st st' t written)
    (hwritten : ∀ s p, written = some (s, p) → p.live st.clock = true → ∀ u, st.spares u s = true)
    (haside : Aside st st' t) : BootSafe st' :=
  h.turn hex hturn hwritten (fun _ _ _ => spares_of_aside haside.pc)
    (haside.orphaned.trans h.safe)

/-! ### The sections of a boot -/

/-- A section of a boot writes no record. -/
theorem BootSafe.bootTurn (h : BootSafe st) (hex : Exclusive st) (hturn : Turn st st' t none)
    (hself : ∀ s, st'.live s = true → st.spares t s = true → st'.spares t s = true)
    (hsafe : st'.orphanedLive = false) : BootSafe st' :=
  h.turn hex hturn (fun _ _ hnone => by cases hnone) (fun s hlive hold =>
    hself s hlive (hold.elim (h.spared t s) fun hall => hall t)) hsafe

theorem finish_aside (mid : State) (t : Nat) : ((finish mid t).tasks t).pc.booting = false := by
  unfold finish
  rw [goto_tasks]
  rfl

theorem BootSafe.loadTokenSection (h : BootSafe st) (hex : Exclusive st)
    (hturn : Turn st st' t none) (hs : loadTokenSection st t answer = some st') :
    BootSafe st' := by
  have hspares : ∀ s, st.spares t s = (st.tasks t).pc.spares ((st.memory t).containsKey s) s :=
    fun _ => rfl
  unfold StoreProtocol.loadTokenSection at hs
  split at hs
  · -- What has been read goes into memory.
    rename_i entries hpc
    cases hs
    refine h.bootTurn hex hturn (fun s _ hold => ?_) h.safe
    rw [hspares, hpc] at hold
    rw [spares_goto]
    have hmemory : ∀ tokens locks, (st.setMemory t tokens locks).memory t = tokens :=
      fun tokens locks => by simp [State.setMemory, State.memory, State.on]
    rw [hmemory]
    simp only [Pc.spares, List.not_mem_nil, decide_false, Bool.false_or, Bool.or_eq_true,
      decide_eq_true_eq] at hold
    exact (HashMap.containsKey_foldl_insert_iff ..).mpr hold
  · rename_i key keys entries hpc
    have hold' : ∀ s, st.spares t s = true → s = key ∨ s ∈ keys ∨ s ∈ entries.map (·.1) ∨
        (st.memory t).containsKey s = true := fun s hold => by
      rw [hspares, hpc] at hold
      simpa [Pc.spares, or_assoc] using hold
    split at hs
    · cases hs
      exact h.bootTurn hex hturn (fun s _ _ => spares_of_aside (finish_aside st t)) h.safe
    · -- Nothing there, so nothing live.
      rename_i hnone
      cases hs
      refine h.bootTurn hex hturn (fun s hlive hold => ?_) h.safe
      rw [spares_goto]
      have hne : s ≠ key := fun heq => by
        have hlive : st.live s = true := hlive
        rw [heq, State.live, hnone] at hlive
        cases hlive
      have := (hold' s hold).resolve_left hne
      simpa [Pc.spares, or_assoc] using this
    · rename_i p hp
      simp only at hs
      split at hs
      · -- A record that a purge would take is not live.
        rename_i hpurgeable
        cases hs
        refine h.bootTurn hex hturn (fun s hlive hold => ?_) h.safe
        rw [spares_goto]
        have hne : s ≠ key := fun heq => by
          have hlive : st.live s = true := hlive
          rw [heq, State.live, hp, Option.any_some, PersistedToken.live, hpurgeable] at hlive
          cases hlive
        have := (hold' s hold).resolve_left hne
        simpa [Pc.spares, or_assoc] using this
      · -- One that is kept is spared as an entry from here on.
        cases hs
        refine h.bootTurn hex hturn (fun s _ hold => ?_) h.safe
        rw [spares_goto]
        have := hold' s hold
        simp only [Pc.spares, Bool.or_eq_true, decide_eq_true_eq, List.map_append, List.mem_append,
          List.map_cons, List.map_nil, List.mem_singleton]
        tauto
  · rename_i key keys entries hpc
    cases hs
    refine h.bootTurn hex hturn (fun s _ hold => ?_) ((orphanedLive_deleteRecord key).trans h.safe)
    have hmemory : (st.deleteRecord answer key).memory t = st.memory t := by
      unfold State.deleteRecord
      split <;> rfl
    rw [spares_goto, hmemory]
    rw [hspares, hpc] at hold
    exact hold
  · cases hs

theorem BootSafe.loadMappingSection (h : BootSafe st) (hex : Exclusive st)
    (hturn : Turn st st' t none) (hs : loadMappingSection st t answer = some st') :
    BootSafe st' := by
  have hspares : ∀ s, st.spares t s = (st.tasks t).pc.spares ((st.memory t).containsKey s) s :=
    fun _ => rfl
  unfold StoreProtocol.loadMappingSection at hs
  split at hs
  · -- What is in memory when the snapshot is taken is valid.
    rename_i keys hpc
    cases hs
    refine h.bootTurn hex hturn (fun s _ hold => ?_) h.safe
    rw [hspares, hpc] at hold
    rw [spares_goto]
    simpa [Pc.spares, Boot.spares, HashMap.containsKey_iff] using hold
  · cases hs
    exact h.bootTurn hex hturn (fun s _ _ => spares_of_aside (finish_aside _ t)) h.safe
  · rename_i key keys valid entries hpc
    have hold' : ∀ s, st.spares t s = true → s ∈ valid ∨ (s ≠ key ∧ s ∉ keys) :=
      fun s hold => by
        rw [hspares, hpc] at hold
        simp only [Pc.spares, Boot.spares, List.mem_cons, Bool.or_eq_true, Bool.not_eq_true',
          decide_eq_false_iff_not, decide_eq_true_eq] at hold
        tauto
    have hrest : ∀ s entries', st.spares t s = true →
        (⟨keys, valid, entries'⟩ : Boot).spares s = true := fun s entries' hold => by
      have := hold' s hold
      simp only [Boot.spares, Bool.or_eq_true, Bool.not_eq_true', decide_eq_false_iff_not,
        decide_eq_true_eq]
      tauto
    simp only at hs
    split at hs
    · cases hs
      exact h.bootTurn hex hturn (fun s _ _ => spares_of_aside (finish_aside st t)) h.safe
    · cases hs
      refine h.bootTurn hex hturn (fun s _ hold => ?_) h.safe
      rw [spares_goto]
      exact hrest s entries hold
    · rename_i m hm
      split at hs
      · -- An orphan has no token in memory, so its record is not live.
        rename_i hvalid
        cases hs
        refine h.bootTurn hex hturn (fun s _ hold => ?_) h.safe
        rw [spares_goto]
        have hne : key ≠ s := fun heq => by
          rcases hold' s hold with hin | ⟨hne, -⟩
          · exact hvalid (heq ▸ hin)
          · exact hne heq.symm
        simp [Pc.spares, hrest s entries hold, hne]
      · split at hs <;> cases hs
        · refine h.bootTurn hex hturn (fun s _ hold => ?_) h.safe
          rw [spares_goto]
          simp [Pc.spares, hrest s entries hold]
        · refine h.bootTurn hex hturn (fun s _ hold => ?_) h.safe
          rw [spares_goto]
          exact hrest s _ hold
  · -- The one that is dropped as an orphan is spared if its record is live.
    rename_i dropped boot hpc
    cases hs
    have hmemory : (st.deleteMapping answer dropped.sessionId).memory t = st.memory t := by
      unfold State.deleteMapping
      split <;> rfl
    refine h.bootTurn hex hturn (fun s _ hold => ?_) ?_
    · show ((st.deleteMapping answer dropped.sessionId).goto t
        (.loadDropInverse .access dropped.mapping boot)).spares t s = true
      rw [spares_goto, hmemory]
      rw [hspares, hpc] at hold
      simp only [Pc.spares, Bool.and_eq_true] at hold ⊢
      exact hold.1
    · have hdead : (dropped.orphan && st.live dropped.sessionId) = false := by
        cases hlive : st.live dropped.sessionId with
        | false => exact Bool.and_false _
        | true =>
          have hspared := h.spared t dropped.sessionId hlive
          rw [hspares, hpc] at hspared
          simp only [Pc.spares, decide_true, Bool.and_true, Bool.and_eq_true,
            Bool.not_eq_true'] at hspared
          rw [hspared.2]
          rfl
      have hsafe := h.safe
      simp only [Bool.and_eq_false_iff] at hdead
      simp only [hsafe, Bool.false_or, Bool.and_eq_false_iff]
      tauto
  · rename_i kind m boot hpc
    cases hs
    have hmemory : (st.deleteInverse answer kind (m.token kind)).memory t = st.memory t := by
      unfold State.deleteInverse
      split <;> rfl
    refine h.bootTurn hex hturn (fun s _ hold => ?_)
      ((orphanedLive_deleteInverse kind (m.token kind)).trans h.safe)
    rw [spares_goto, hmemory]
    rw [hspares, hpc] at hold
    cases kind <;> exact hold
  · cases hs

theorem acquainted_written (hcalled : Called st)
    (hg : acquainted st (.run t answer) = true) (s : String) (p : PersistedToken)
    (hp : persisting st (.run t answer) = some (s, p)) (hlive : p.live st.clock = true) (u : Nat) :
    st.spares u s = true := by
  by_cases hu : u ∈ st.called
  · simp only [acquainted, hp, hlive, Bool.not_true, Bool.false_or, List.all_eq_true] at hg
    exact hg u hu
  · exact spares_of_aside (by rw [hcalled u hu]; rfl)

theorem BootSafe.run (h : BootSafe st) (hex : Exclusive st) (hcalled : Called st)
    (hg : acquainted st (.run t answer) = true) (hs : runSection st t answer = some st') :
    BootSafe st' := by
  cases hbooting : (st.tasks t).pc.booting with
  | false =>
    exact h.aside hex (.run hex hs) (acquainted_written hcalled hg) (.run hbooting hs)
  | true =>
    cases hpc : (st.tasks t).pc with
    | loadTokens keys entries | loadDropToken key keys entries =>
      simp only [runSection, hpc] at hs
      exact h.loadTokenSection hex
        (.loadTokenSection hex (by rw [hpc]; rfl) (by rw [hpc]; rfl) hs) hs
    | loadMappingKeys =>
      simp only [runSection, hpc] at hs
      split at hs <;> cases hs
      exact h.bootTurn hex (.finish hex (.refl st t) (inMutation_of_booting hbooting))
        (fun s _ _ => spares_of_aside (finish_aside st t)) h.safe
    | loadSnapshot keys | loadMappings boot | loadDropMapping dropped boot
    | loadDropInverse kind m boot =>
      simp only [runSection, hpc] at hs
      exact h.loadMappingSection hex
        (.loadMappingSection hex (by rw [hpc]; rfl) (by rw [hpc]; rfl) hs) hs
    | _ =>
      rw [hpc] at hbooting
      cases hbooting

/-- The keys of all records are listed, and then those of the mappings. -/
theorem BootSafe.listSection (h : BootSafe st) (hex : Exclusive st) (hrecorded : Recorded st)
    {keys : List String} (hs : listSection st t keys = some st') : BootSafe st' := by
  have hturn := Turn.listSection hex hs
  unfold StoreProtocol.listSection at hs
  split at hs
  · split at hs
    · split at hs <;> cases hs
      · exact h.bootTurn hex hturn (fun s _ _ => spares_of_aside (finish_aside st t)) h.safe
      · exact h.bootTurn hex hturn
          (fun s _ _ => spares_of_aside (by rw [goto_tasks]; rfl)) h.safe
    · cases hs
  · split at hs <;> cases hs
    rename_i hperm
    refine h.bootTurn hex hturn (fun s hlive _ => ?_) h.safe
    rw [spares_goto]
    have hlive : st.live s = true := hlive
    have hrecord : (st.record s).isSome = true := by
      obtain ⟨p, hp, -⟩ := (Option.any_eq_true _ _).mp hlive
      rw [hp]
      rfl
    have hs : s ∈ keys := hperm.mem_iff.mpr
      (List.mem_filter.mpr ⟨hrecorded.record s hrecord, hrecord⟩)
    simp [Pc.spares, hs]
  · rename_i hpc
    split at hs <;> cases hs
    refine h.bootTurn hex hturn (fun s _ hold => ?_) h.safe
    rw [State.spares, hpc] at hold
    rw [spares_goto]
    simp only [Pc.spares, Bool.or_eq_true] at hold ⊢
    exact .inr hold
  · cases hs

/-- Nothing of what a boot goes by changes. -/
theorem BootSafe.same (h : BootSafe st) (htasks : st'.tasks = st.tasks)
    (hinsts : st'.tokens.instances = st.tokens.instances)
    (hlive : ∀ s, st'.live s = true → st.live s = true ∨ ∀ u, st.spares u s = true)
    (horphaned : st'.orphanedLive = st.orphanedLive) : BootSafe st' where
  spared := fun u s hs => by
    have hold : st.spares u s = true := (hlive s hs).elim (h.spared u s) fun hall => hall u
    unfold State.spares State.memory State.on at hold ⊢
    rw [htasks, hinsts]
    exact hold
  safe := horphaned.trans h.safe

/-- The system clock goes on, or nothing is booting. -/
theorem BootSafe.tick (h : BootSafe st) (hcalled : Called st) {d unix : Nat}
    (hg : acquainted st (.tick d unix) = true) (hs : step st (.tick d unix) = some st') :
    BootSafe st' := by
  cases hs
  refine h.same rfl rfl (fun s hlive => ?_) rfl
  simp only [acquainted, Bool.or_eq_true, decide_eq_true_eq, List.all_eq_true,
    Bool.not_eq_true'] at hg
  rcases hg with hunix | hnone
  · exact .inl (live_of_tick hunix hlive)
  · refine .inr fun u => spares_of_aside ?_
    by_cases hu : u ∈ st.called
    · exact hnone u hu
    · rw [hcalled u hu]
      rfl

theorem BootSafe.call (h : BootSafe st) (hex : Exclusive st) (inst : Nat) (op : Op) :
    BootSafe (op.begin { st with tasks := Function.update st.tasks t { inst := inst, pc := .idle }
                                 called := t :: st.called } t) := by
  have hidle : BootSafe { st with tasks := Function.update st.tasks t { inst := inst, pc := .idle }
                                  called := t :: st.called } := by
    refine ⟨fun u s hlive => ?_, h.safe⟩
    by_cases hu : u = t
    · subst hu
      exact spares_of_aside (by simp [Pc.booting])
    · have hold := h.spared u s hlive
      unfold State.spares State.memory State.on at hold ⊢
      simp only [Function.update_of_ne hu]
      exact hold
  have hex' := hex.call (t := t) inst (t :: st.called)
  exact hidle.aside hex' (.begin hex' (by simp) op) (fun _ _ hnone => by cases hnone) (.begin op)

theorem BootSafe.step (h : BootSafe st) (hex : Exclusive st) (hcalled : Called st)
    (hrecorded : Recorded st) (hg : acquainted st l = true) (hs : step st l = some st') :
    BootSafe st' := by
  cases l with
  | tick d unix => exact h.tick hcalled hg hs
  | call t inst op =>
    simp only [StoreProtocol.step] at hs
    split at hs <;> cases hs
    exact h.call hex inst op
  | run t answer => exact h.run hex hcalled hg hs
  | reply t response =>
    simp only [StoreProtocol.step, Option.ite_none_right_eq_some] at hs
    obtain ⟨tokens, hreply, rfl⟩ := Option.map_eq_some_iff.mp hs.2
    refine h.aside hex (.reply hex hs.1 hreply) (fun _ _ hnone => by cases hnone) ⟨?_, rfl⟩
    have hhalf := hs.1
    show (st.tasks t).pc.booting = false
    cases hpc : (st.tasks t).pc <;> rw [hpc] at hhalf <;> first | rfl | cases hhalf
  | list t keys => exact h.listSection hex hrecorded hs
  | mint t a r =>
    exact h.aside hex (.mintSection hex hs) (fun _ _ hnone => by cases hnone) (.mintSection hs)
  | lapse s =>
    simp only [StoreProtocol.step] at hs
    split at hs
    · split at hs <;> cases hs
      exact h.same rfl rfl (fun s hlive => .inl (live_of_deleteRecord hlive)) rfl
    · cases hs
  | lapseMapping s | lapseInverse kind token =>
    cases hs
    exact h.same rfl rfl (fun s hlive => .inl hlive) rfl

end BootSafe

/-! ## Every run -/

/-- **A boot spares live logins** in every run in which no record gets live while a
boot is under way that would miss it. -/
theorem boot_spares_live (clock : Clock) (refreshConfig : Bool) (st : State)
    (hr : system.Reach (fun st l => acquainted st l = true) (init clock refreshConfig) st) :
    st.orphanedLive = false := by
  have hinv := hr.invariant
    (I := fun st => BootSafe st ∧ Exclusive st ∧ Called st ∧ Recorded st)
    ⟨⟨fun _ _ hlive => (by cases hlive), rfl⟩, exclusive_init clock refreshConfig, fun _ _ => rfl,
      ⟨fun _ h => (by cases h), fun _ _ _ h => (by cases h)⟩⟩
    fun _ _ _ ⟨h, hex, hcalled, hrecorded⟩ hg hs =>
      ⟨h.step hex hcalled hrecorded hg hs, hex.step hs, hcalled.step hex hs, hrecorded.step hex hs⟩
  exact hinv.1.safe

/-- An instance boots over the login of another one, and has its token and its
opaque mapping in memory. -/
theorem login_survives_boot :
    ∃ st : State, st.orphanedLive = false ∧ (st.mapping "s").isSome = true ∧
      (st.index 1).toSession .access "a" ≠ none := by
  obtain ⟨st, hr, hp⟩ := System.exists_reach_of_run (S := system)
    (G := fun st l => acquainted st l = true) (s := init ⟨0, 0⟩ false)
    (w := wholeLogin 0 0 "s" ⟨"t", none, none⟩ "a" "r" ++
      .call 1 1 .loadPersisted :: runs 1 1 ++ .list 1 ["s"] :: runs 1 2 ++
        .list 1 ["s"] :: runs 1 3)
    (p := fun st => (st.mapping "s").isSome && ((st.index 1).toSession .access "a").isSome)
    (by decide +kernel)
  rw [Bool.and_eq_true] at hp
  exact ⟨st, boot_spares_live _ _ st hr, hp.1, Option.isSome_iff_ne_none.mp hp.2⟩

/-- A peer logs in after a booting instance has listed the tokens and before it
lists the mappings; the boot deletes the mapping of the login. -/
theorem login_during_boot_orphaned :
    ¬ ∀ (clock : Clock) (refreshConfig : Bool) (st : State),
      system.Reach anyStep (init clock refreshConfig) st → st.orphanedLive = false := by
  intro h
  obtain ⟨st, hr, hp⟩ := System.exists_reach_of_run (S := system) (G := anyStep)
    (s := init ⟨0, 0⟩ false)
    (w := .call 0 1 .loadPersisted :: runs 0 1 ++ .list 0 [] ::
      wholeLogin 1 0 "s" ⟨"t", none, none⟩ "a" "r" ++ runs 0 1 ++ .list 0 ["s"] :: runs 0 3)
    (p := fun st => st.orphanedLive) (by decide +kernel)
  rw [h _ _ st hr] at hp
  cases hp

end McpFramework.StoreProtocol
