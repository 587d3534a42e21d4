import McpFramework.Auth.StoreMutex

/-!
# Auth — PurgeSafety

What `purge_expired` deletes from the shared backend.

It selects sessions by the tokens in the memory of its own instance and deletes
their records and opaque mappings without another look at the backend. So the
records must be as stale as the memory when it selects, and must stay so until
it has deleted them.
-/

namespace McpFramework.StoreProtocol

open Lib
open TokenProtocol (Answer)

/-! ## Purges under way -/

/-- The sessions a purge is yet to delete. -/
def Pc.purging : Pc → List String
  | .purgeMemory expiredKeys => expiredKeys
  | .purgeIndex expiredKeys => expiredKeys
  | .purgeToken expiredKeys _ => expiredKeys
  | .purgeMapping key expiredKeys _ => key :: expiredKeys
  | _ => []

namespace State

/-- Some purge is yet to delete a session. -/
def purging (st : State) (sessionId : String) : Bool :=
  st.called.any fun t => decide (sessionId ∈ (st.tasks t).pc.purging)

/-- The records of the sessions a purge would select are not live. -/
def memoryCurrent (st : State) (t : Nat) : Bool :=
  (TokenStore.expiredKeys (st.memory t) st.clock.now).all fun key => !st.live key

end State

/-- A purge selects sessions without a live record only, none gets one before the
purge is done with it, and meanwhile the system clock is not set back. -/
def current (st : State) (l : Label) : Bool :=
  match l with
  | .tick _ unix =>
    decide (st.clock.unix ≤ unix) || st.called.all fun t => (st.tasks t).pc.purging.isEmpty
  | .list t _ =>
    match (st.tasks t).pc with
    | .purgeScan => st.memoryCurrent t
    | _ => true
  | _ =>
    match persisting st l with
    | some (sessionId, p) => !p.live st.clock || !st.purging sessionId
    | none => true

/-! ## The invariant -/

structure PurgeSafe (st : State) : Prop where
  stale : ∀ t, ∀ s ∈ (st.tasks t).pc.purging, st.live s = false
  safe : st.purgedLive = false

section PurgeSafe

variable {st st' : State} {t : Nat} {pc : Pc} {s : String} {answer : Answer} {l : Label}

theorem purging_eq_false (hcalled : Called st) (h : st.purging s = false) (t : Nat) :
    s ∉ (st.tasks t).pc.purging := by
  intro hs
  have ht : t ∈ st.called := hcalled.mem fun hidle => by
    rw [hidle] at hs
    cases hs
  rw [State.purging, List.any_eq_false] at h
  exact h t ht (decide_eq_true hs)

/-- The tasks stay where they are, and a record gets live only while no purge is
about to delete it. -/
theorem PurgeSafe.congr (h : PurgeSafe st) (htasks : st'.tasks = st.tasks)
    (hpurged : st'.purgedLive = st.purgedLive)
    (hlive : ∀ s, st'.live s = true → st.live s = true ∨ ∀ t, s ∉ (st.tasks t).pc.purging) :
    PurgeSafe st' where
  stale := fun t s hs => by
    rw [htasks] at hs
    by_contra hnot
    rcases hlive s (by simpa using hnot) with hold | hnone
    · rw [h.stale t s hs] at hold
      cases hold
    · exact hnone t hs
  safe := hpurged.trans h.safe

/-- Nothing that a purge goes by changes. -/
theorem PurgeSafe.same (h : PurgeSafe st) (htasks : st'.tasks = st.tasks)
    (hpurged : st'.purgedLive = st.purgedLive) (hlive : st'.live = st.live) : PurgeSafe st' :=
  h.congr htasks hpurged fun s hs => .inl (by rwa [hlive] at hs)

theorem PurgeSafe.goto (h : PurgeSafe st) (hpc : ∀ s ∈ pc.purging, st.live s = false) :
    PurgeSafe (st.goto t pc) where
  stale := (forall_update_iff (P := fun _ (task : Task) =>
    ∀ s ∈ task.pc.purging, st.live s = false)).mpr ⟨hpc, fun u _ => h.stale u⟩
  safe := h.safe

/-- A task goes to where there is nothing to purge. -/
theorem PurgeSafe.away (h : PurgeSafe st) (hpc : pc.purging = []) : PurgeSafe (st.goto t pc) :=
  h.goto fun s hs => by
    rw [hpc] at hs
    cases hs

theorem PurgeSafe.setMutation (h : PurgeSafe st) (t : Nat) (lock : Option Nat) :
    PurgeSafe (st.setMutation t lock) := h.same rfl rfl rfl

theorem PurgeSafe.finish (h : PurgeSafe st) (t : Nat) : PurgeSafe (finish st t) :=
  (h.setMutation t none).away rfl

theorem PurgeSafe.deleteRecord (h : PurgeSafe st) (answer : Answer) (key : String) :
    PurgeSafe (st.deleteRecord answer key) := by
  refine h.congr ?_ ?_ fun s hs => .inl (live_of_dropRecord hs) <;> unfold State.deleteRecord <;>
    split <;> rfl

theorem PurgeSafe.deleteMapping (h : PurgeSafe st) (answer : Answer) (key : String) :
    PurgeSafe (st.deleteMapping answer key) := by
  unfold State.deleteMapping
  split
  · exact h.same rfl rfl rfl
  · exact h

theorem PurgeSafe.deleteInverse (h : PurgeSafe st) (answer : Answer) (kind : OpaqueKind)
    (token : String) : PurgeSafe (st.deleteInverse answer kind token) := by
  unfold State.deleteInverse
  split
  · exact h.same rfl rfl rfl
  · exact h

/-- A record is persisted while no purge is about to delete it. -/
theorem PurgeSafe.runTokens (h : PurgeSafe st) (hcalled : Called st)
    (hg : current st (.run t answer) = true) (hs : runTokens st t answer = some st') :
    PurgeSafe st' := by
  have hframe : st'.tasks = st.tasks ∧ st'.purgedLive = st.purgedLive := by
    obtain ⟨tokens, -, rfl⟩ := Option.map_eq_some_iff.mp hs
    exact ⟨rfl, rfl⟩
  refine h.congr hframe.1 hframe.2 fun s hlive => ?_
  rcases live_of_runTokens hs hlive with hold | ⟨p, hwrite, hp⟩
  · exact .inl hold
  · simp only [current, hwrite, hp, Bool.not_true, Bool.false_or, Bool.not_eq_true'] at hg
    exact .inr (purging_eq_false hcalled hg)

theorem PurgeSafe.runOpaques (h : PurgeSafe st) (hs : runOpaques st t answer = some st') :
    PurgeSafe st' := by
  obtain ⟨opaques, -, rfl⟩ := Option.map_eq_some_iff.mp hs
  exact h.same rfl rfl rfl

/-! ### The sections of a purge -/

theorem PurgeSafe.purgeSection (h : PurgeSafe st) (hs : purgeSection st t answer = some st') :
    PurgeSafe st' := by
  have hstale := h.stale t
  unfold StoreProtocol.purgeSection at hs
  split at hs <;> cases hs
  · rename_i keys hpc
    rw [hpc] at hstale
    have hmemory : ∀ tokens locks, PurgeSafe (st.setMemory t tokens locks) :=
      fun _ _ => h.same rfl rfl rfl
    exact (hmemory _ _).goto hstale
  · rename_i keys hpc
    rw [hpc] at hstale
    have hindex : ∀ index, PurgeSafe (st.setIndex t index) := fun _ => h.same rfl rfl rfl
    exact (hindex _).goto hstale
  · exact h.away rfl
  · -- The record that is deleted is not live, and the mapping is still to be.
    rename_i key keys drops hpc
    rw [hpc] at hstale
    have hkey : st.live key = false := hstale key (List.mem_cons_self ..)
    have hdeleted : PurgeSafe ((st.deleteRecord answer key).goto t
        (.purgeMapping key keys drops)) := (h.deleteRecord answer key).goto fun s hs => by
      by_contra hlive
      have hold := live_of_dropRecord (by simpa using hlive)
      rw [hstale s hs] at hold
      cases hold
    exact ⟨hdeleted.stale, by simp [h.safe, hkey]⟩
  · rename_i key keys drops hpc
    rw [hpc] at hstale
    have hkey : st.live key = false := hstale key (List.mem_cons_self ..)
    have hlive : ∀ s, (st.deleteMapping answer key).live s = st.live s := fun s => by
      unfold State.deleteMapping
      split <;> rfl
    have hdeleted : PurgeSafe ((st.deleteMapping answer key).goto t (.purgeToken keys drops)) :=
      (h.deleteMapping answer key).goto fun s hs => by
        rw [hlive]
        exact hstale s (List.mem_cons_of_mem key hs)
    exact ⟨hdeleted.stale, by simp [h.safe, hkey]⟩
  · exact h.finish t
  · exact (h.deleteInverse answer _ _).away rfl

/-! ### The other sections -/

theorem PurgeSafe.loadTokenSection (h : PurgeSafe st)
    (hs : loadTokenSection st t answer = some st') : PurgeSafe st' := by
  unfold StoreProtocol.loadTokenSection at hs
  split at hs
  · cases hs
    have hmemory : ∀ tokens locks, PurgeSafe (st.setMemory t tokens locks) :=
      fun _ _ => h.same rfl rfl rfl
    exact (hmemory _ _).away rfl
  · split at hs
    · cases hs
      exact h.finish t
    · cases hs
      exact h.away rfl
    · simp only at hs
      split at hs <;> cases hs <;> exact h.away rfl
  · cases hs
    exact (h.deleteRecord answer _).away rfl
  · cases hs

theorem PurgeSafe.loadMappingSection (h : PurgeSafe st)
    (hs : loadMappingSection st t answer = some st') : PurgeSafe st' := by
  unfold StoreProtocol.loadMappingSection at hs
  split at hs
  · cases hs
    exact h.away rfl
  · cases hs
    have hindex : ∀ index, PurgeSafe (st.setIndex t index) := fun _ => h.same rfl rfl rfl
    exact (hindex _).finish t
  · simp only at hs
    split at hs
    · cases hs
      exact h.finish t
    · cases hs
      exact h.away rfl
    · split at hs
      · cases hs
        exact h.away rfl
      · split at hs <;> cases hs <;> exact h.away rfl
  · rename_i dropped boot hpc
    cases hs
    have hdeleted : PurgeSafe ((st.deleteMapping answer dropped.sessionId).goto t
        (.loadDropInverse .access dropped.mapping boot)) :=
      (h.deleteMapping answer dropped.sessionId).away rfl
    exact hdeleted.same rfl (by simp) rfl
  · rename_i kind m boot hpc
    cases hs
    cases kind <;> exact (h.deleteInverse answer _ _).away rfl
  · cases hs

theorem PurgeSafe.grantSection (h : PurgeSafe st) {r : String}
    (hs : grantSection st t r answer = some st') : PurgeSafe st' := by
  unfold StoreProtocol.grantSection at hs
  split at hs
  · cases hs
    have hanswered : PurgeSafe (answered st .refresh r none) := h.same rfl rfl rfl
    exact hanswered.away rfl
  · rename_i s hresult
    cases hs
    have hstarted : PurgeSafe ((answered st .refresh r (some s)).startTokens t s .get) :=
      h.same rfl rfl rfl
    exact hstarted.away rfl
  · obtain ⟨mid, hmid, rfl⟩ := Option.map_eq_some_iff.mp hs
    have hrun := h.runOpaques hmid
    split
    · exact hrun.same rfl rfl rfl
    · exact hrun

theorem PurgeSafe.storeSection (h : PurgeSafe st) {grant : Option String}
    (hs : storeSection st t grant answer = some st') : PurgeSafe st' := by
  unfold StoreProtocol.storeSection at hs
  split at hs
  · cases hs
    cases grant <;> exact h.away rfl
  · obtain ⟨mid, hmid, rfl⟩ := Option.map_eq_some_iff.mp hs
    have hrun := h.runOpaques hmid
    split
    · exact hrun.same rfl rfl rfl
    · exact hrun

theorem PurgeSafe.lockSection (h : PurgeSafe st) (hpc : pc.purging = [])
    (hs : lockSection st t pc = some st') : PurgeSafe st' := by
  unfold StoreProtocol.lockSection at hs
  split at hs <;> cases hs
  exact (h.setMutation t (some t)).away hpc

theorem PurgeSafe.run (h : PurgeSafe st) (hcalled : Called st)
    (hg : current st (.run t answer) = true) (hs : runSection st t answer = some st') :
    PurgeSafe st' := by
  unfold runSection at hs
  split at hs
  · exact h.runTokens hcalled hg hs
  · split at hs
    · cases hs
      exact h.away rfl
    · exact h.runTokens hcalled hg hs
  · exact h.grantSection hs
  · split at hs
    · cases hs
      exact h.away rfl
    · cases hs
      have hstarted : ∀ op, PurgeSafe ((release st t).startOpaques t op) :=
        fun _ => h.same rfl rfl rfl
      exact (hstarted _).away rfl
    · exact h.runTokens hcalled hg hs
  · exact h.storeSection hs
  · exact h.runOpaques hs
  · split at hs
    · cases hs
      have hanswered : ∀ kind token result, PurgeSafe (answered st kind token result) :=
        fun _ _ _ => h.same rfl rfl rfl
      exact (hanswered _ _ _).away rfl
    · exact h.runOpaques hs
  · split at hs
    · cases hs
      have hstarted : ∀ pc prior, PurgeSafe (st.startAt t pc prior) := fun _ _ => h.same rfl rfl rfl
      exact (hstarted _ _).away rfl
    · exact h.runTokens hcalled hg hs
  · obtain ⟨mid, hmid, rfl⟩ := Option.map_eq_some_iff.mp hs
    have hrun := h.runOpaques hmid
    split
    · exact (hrun.setMutation t (some t)).away rfl
    · exact hrun
  · exact h.runTokens hcalled hg hs
  · exact h.lockSection rfl hs
  · exact h.lockSection rfl hs
  · split at hs <;> cases hs
    exact h.finish t
  · split at hs <;> cases hs
    exact h.finish t
  · exact h.purgeSection hs
  · exact h.purgeSection hs
  · exact h.purgeSection hs
  · exact h.purgeSection hs
  · exact h.purgeSection hs
  · exact h.loadTokenSection hs
  · exact h.loadTokenSection hs
  · exact h.loadMappingSection hs
  · exact h.loadMappingSection hs
  · exact h.loadMappingSection hs
  · exact h.loadMappingSection hs
  all_goals cases hs

/-- A purge selects sessions whose records are as stale as its memory. -/
theorem PurgeSafe.listSection (h : PurgeSafe st) {keys : List String}
    (hg : current st (.list t keys) = true) (hs : listSection st t keys = some st') :
    PurgeSafe st' := by
  unfold StoreProtocol.listSection at hs
  split at hs
  · rename_i hpc
    simp only [current, hpc, State.memoryCurrent, List.all_eq_true, Bool.not_eq_true'] at hg
    split at hs
    · rename_i hperm
      split at hs <;> cases hs
      · exact h.finish t
      · exact h.goto fun s hs => hg s (hperm.mem_iff.mp hs)
    · cases hs
  · split at hs <;> cases hs
    exact h.away rfl
  · split at hs <;> cases hs
    exact h.away rfl
  · cases hs

theorem PurgeSafe.mintSection (h : PurgeSafe st) {a r : String}
    (hs : mintSection st t a r = some st') : PurgeSafe st' := by
  simp only [StoreProtocol.mintSection] at hs
  split at hs
  · split at hs <;> cases hs
    have hstarted : ∀ generated s op,
        PurgeSafe (({ st with generated := generated }.named s).startOpaques t op) :=
      fun _ _ _ => h.same rfl rfl rfl
    exact (hstarted _ _ _).away rfl
  · cases hs

theorem PurgeSafe.begin (h : PurgeSafe st) (op : Op) : PurgeSafe (op.begin st t) := by
  have htokens : ∀ s op, PurgeSafe (st.startTokens t s op) := fun _ _ => h.same rfl rfl rfl
  have hopaques : ∀ op, PurgeSafe (st.startOpaques t op) := fun _ => h.same rfl rfl rfl
  cases op with
  | getToken s => exact (htokens _ _).away rfl
  | peekToken s => exact (htokens _ _).away rfl
  | storeToken s token => exact (htokens _ _).away rfl
  | removeToken s => exact (htokens _ _).away rfl
  | purgeExpired => exact h.away rfl
  | loadPersisted => exact h.away rfl
  | storeMapping s ttl => exact h.away rfl
  | removeMapping s => exact (hopaques _).away rfl
  | resolve kind token => exact (hopaques _).away rfl
  | login s token expires => exact (htokens _ _).away rfl
  | refreshGrant r => exact (hopaques _).away rfl

/-- The system clock goes on, or nothing is being purged. -/
theorem PurgeSafe.tick (h : PurgeSafe st) (hcalled : Called st) {d unix : Nat}
    (hg : current st (.tick d unix) = true) (hs : step st (.tick d unix) = some st') :
    PurgeSafe st' := by
  cases hs
  refine h.congr rfl rfl fun s hlive => ?_
  simp only [current, Bool.or_eq_true, decide_eq_true_eq, List.all_eq_true,
    List.isEmpty_iff] at hg
  rcases hg with hunix | hnone
  · exact .inl (live_of_tick hunix hlive)
  · refine .inr fun u hu => ?_
    have hmem := hcalled.mem (t := u) fun hidle => by
      rw [hidle] at hu
      cases hu
    rw [hnone u hmem] at hu
    cases hu

theorem PurgeSafe.step (h : PurgeSafe st) (hcalled : Called st) (hg : current st l = true)
    (hs : step st l = some st') : PurgeSafe st' := by
  cases l with
  | tick d unix => exact h.tick hcalled hg hs
  | call t inst op =>
    simp only [StoreProtocol.step] at hs
    split at hs <;> cases hs
    have hidle : PurgeSafe
        { st with tasks := Function.update st.tasks t { inst := inst, pc := .idle }
                  called := t :: st.called } :=
      ⟨(forall_update_iff (P := fun _ (task : Task) => ∀ s ∈ task.pc.purging,
        st.live s = false)).mpr ⟨fun _ hs => by (cases hs), fun u _ => h.stale u⟩, h.safe⟩
    exact hidle.begin op
  | run t answer => exact h.run hcalled hg hs
  | reply t response =>
    simp only [StoreProtocol.step, Option.ite_none_right_eq_some] at hs
    obtain ⟨tokens, hreply, rfl⟩ := Option.map_eq_some_iff.mp hs.2
    exact h.same rfl rfl (live_of_reply hreply)
  | list t keys => exact h.listSection hg hs
  | mint t a r => exact h.mintSection hs
  | lapse s =>
    simp only [StoreProtocol.step] at hs
    split at hs
    · split at hs <;> cases hs
      exact h.congr rfl rfl fun s hs => .inl (live_of_deleteRecord hs)
    · cases hs
  | lapseMapping s | lapseInverse kind token =>
    cases hs
    exact h.same rfl rfl rfl

theorem purgeSafe_init (clock : Clock) (refreshConfig : Bool) :
    PurgeSafe (init clock refreshConfig) :=
  ⟨fun _ _ hs => (by cases hs), rfl⟩

end PurgeSafe

/-! ## Every run -/

/-- **A purge deletes nothing live** in every run in which the memory it goes by is
as current as the records, and they stay so until they are deleted. -/
theorem purge_spares_live (clock : Clock) (refreshConfig : Bool) (st : State)
    (hr : system.Reach (fun st l => current st l = true) (init clock refreshConfig) st) :
    st.purgedLive = false := by
  have hinv := hr.invariant (I := fun st => Exclusive st ∧ Called st ∧ PurgeSafe st)
    ⟨exclusive_init clock refreshConfig, fun _ _ => rfl, purgeSafe_init clock refreshConfig⟩
    fun _ _ _ ⟨hex, hcalled, h⟩ hg hs =>
      ⟨hex.step hs, hcalled.step hex hs, h.step hcalled hg hs⟩
  exact hinv.2.2.safe

/-- Task `t` purges one session with its opaque tokens. -/
def wholePurge (t inst : Nat) (sessionId : String) : List Label :=
  .call t inst .purgeExpired :: runs t 1 ++ .list t [sessionId] :: runs t 8

/-- An expired login is purged on its instance. -/
theorem expired_login_purged :
    ∃ st : State, st.purgedLive = false ∧ (st.record "s").isNone = true ∧
      (st.mapping "s").isNone = true := by
  obtain ⟨st, hr, hp⟩ := System.exists_reach_of_run (S := system)
    (G := fun st l => current st l = true) (s := init ⟨0, 0⟩ false)
    (w := wholeLogin 0 0 "s" ⟨"t", none, some 0⟩ "a" "r" ++ wholePurge 1 0 "s")
    (p := fun st => (st.record "s").isNone && (st.mapping "s").isNone) (by decide +kernel)
  rw [Bool.and_eq_true] at hp
  exact ⟨st, purge_spares_live _ _ st hr, hp.1, hp.2⟩

/-- A second instance renews a token, and the first, which has the expired one in
its memory, deletes the new record. -/
theorem renewed_record_purged :
    ¬ ∀ (clock : Clock) (refreshConfig : Bool) (st : State),
      system.Reach anyStep (init clock refreshConfig) st → st.purgedLive = false := by
  intro h
  obtain ⟨st, hr, hp⟩ := System.exists_reach_of_run (S := system) (G := anyStep)
    (s := init ⟨0, 0⟩ false)
    (w := wholeStore 0 0 "s" ⟨"old", none, some 0⟩ ++ wholeStore 1 1 "s" ⟨"new", none, none⟩ ++
      .call 2 0 .purgeExpired :: runs 2 1 ++ .list 2 ["s"] :: runs 2 3)
    (p := fun st => st.purgedLive) (by decide +kernel)
  rw [h _ _ st hr] at hp
  cases hp

end McpFramework.StoreProtocol
