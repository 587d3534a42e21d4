import McpFramework.Session.Protocol

/-!
# Session — Removal

When a removed session stays removed: no operation that starts after a removal
has completed writes back, or passes to an update closure, data written before
it (`NotResurrected`).

Every operation but `remove` falls back on its replica's own copy when the
backend has no record, and a removal cleans the copy of its own replica only.
What keeps a session removed is that no such fallback picks up a copy from
before the last removal (`fallsBack`).
-/

namespace McpFramework.Session

open Lib

variable {T : Type*}

/-- An operation that has found no record goes on with a copy that its replica
cached before the last removal. -/
def fallsBack (st : State T) : Label T → Bool
  | .run t _ =>
    match (st.tasks t).pc, (st.tasks t).op with
    | .apply _ none, .remove => false
    | .apply _ none, _ =>
      match st.cached t with
      | some e => decide (e.born < st.deletions)
      | none => false
    | _, _ => false
  | _ => false

/-- What operations did with data was all about data written after each removal
that had completed when they started. -/
def NotResurrected (st : State T) : Prop := ∀ u ∈ st.uses, u.start ≤ u.born

namespace Removal

/-- After how many removals the data an operation carries was written. -/
def born : Pc T → Option Nat
  | .apply _ (some (_, b)) => some b
  | .persist _ _ b => some b
  | _ => none

/-- An operation carries no data from before a removal that has taken effect,
and has found no record only if there is none. -/
structure TaskOk (record : Option (PersistedSession T)) (deletions completed : Nat)
    (task : Task T) : Prop where
  fresh : ∀ b, born task.pc = some b → deletions ≤ b
  absent : ∀ h, task.pc = .apply h none → record = none
  start : task.start ≤ completed
  epoch : task.epoch ≤ deletions

structure Inv (st : State T) : Prop where
  exclusive : Exclusive st
  tasks : ∀ t, TaskOk st.record st.deletions st.completed (st.tasks t)
  /-- A record from before the last removal is about to be deleted by it. -/
  record : ∀ p, st.record = some p → st.deletions ≤ p.born ∨
    ∃ t h, (st.tasks t).pc = .delete h
  completed : st.completed ≤ st.deletions
  uses : NotResurrected st

variable {st st' : State T} {t : Nat} {task : Task T} {record record' : Option (PersistedSession T)}
  {deletions deletions' completed completed' : Nat}

/-- An operation outside the locked section carries nothing. -/
theorem TaskOk.outside (h : TaskOk record deletions completed task)
    (hout : task.pc.critical = false) (hd : deletions ≤ deletions')
    (hc : completed ≤ completed') : TaskOk record' deletions' completed' task := by
  refine ⟨?_, ?_, Nat.le_trans h.start hc, Nat.le_trans h.epoch hd⟩
  · intro b hb
    cases hpc : task.pc <;> simp [hpc, born, Pc.critical] at hb hout
  · intro h' hpc
    simp [hpc, Pc.critical] at hout

/-- A step of the operation inside the section: the others are outside. -/
theorem Inv.inside (hi : Inv st) (hin : (st.tasks t).pc.critical = true)
    (hex : Exclusive st') (htasks : st'.tasks = Function.update st.tasks t task)
    (hd : st.deletions ≤ st'.deletions) (hc : st.completed ≤ st'.completed)
    (htask : TaskOk st'.record st'.deletions st'.completed task)
    (hrecord : ∀ p, st'.record = some p → st'.deletions ≤ p.born ∨ ∃ h, task.pc = .delete h)
    (hcd : st'.completed ≤ st'.deletions) (huses : NotResurrected st') : Inv st' := by
  refine ⟨hex, ?_, ?_, hcd, huses⟩
  · rw [htasks]
    exact (forall_update_iff (P := fun _ (task : Task T) =>
      TaskOk st'.record st'.deletions st'.completed task)).mpr
      ⟨htask, fun u hu => (hi.tasks u).outside (hi.exclusive.alone hin hu) hd hc⟩
  · intro p hp
    rcases hrecord p hp with h | ⟨h, hpc⟩
    · exact .inl h
    · exact .inr ⟨t, h, by rw [htasks, Function.update_self, hpc]⟩

/-- A step of an operation that stays outside the section, or enters it. -/
theorem Inv.outside (hi : Inv st) (hout : (st.tasks t).pc.critical = false)
    (hex : Exclusive st') (htasks : st'.tasks = Function.update st.tasks t task)
    (hr : st'.record = st.record) (hd : st'.deletions = st.deletions)
    (hc : st'.completed = st.completed) (hu : st'.uses = st.uses)
    (htask : TaskOk st.record st.deletions st.completed task) : Inv st' := by
  refine ⟨hex, ?_, ?_, ?_, ?_⟩
  · rw [htasks, hr, hd, hc]
    exact (forall_update_iff (P := fun _ (task : Task T) =>
      TaskOk st.record st.deletions st.completed task)).mpr ⟨htask, fun u _ => hi.tasks u⟩
  · intro p hp
    rw [hr] at hp
    rw [hd]
    rcases hi.record p hp with h | ⟨u, h, hpc⟩
    · exact .inl h
    · refine .inr ⟨u, h, ?_⟩
      have hne : u ≠ t := by
        rintro rfl
        rw [hpc] at hout
        cases hout
      rw [htasks, Function.update_of_ne hne, hpc]
  · rw [hc, hd]
    exact hi.completed
  · intro u hmem
    rw [hu] at hmem
    exact hi.uses u hmem

/-- The holder of the section finds a record from after the last removal. -/
theorem Inv.record_fresh (hi : Inv st) (hin : (st.tasks t).pc.critical = true)
    (hnot : ∀ h, (st.tasks t).pc ≠ .delete h) {p : PersistedSession T}
    (hp : st.record = some p) : st.deletions ≤ p.born := by
  rcases hi.record p hp with h | ⟨u, h, hpc⟩
  · exact h
  · have hu : u = t := by
      by_contra hne
      have := hi.exclusive.alone hin hne
      rw [hpc] at this
      cases this
    subst hu
    exact absurd hpc (hnot h)

/-- What the memory section goes on with is from after the last removal, unless
it falls back on an older copy. -/
theorem Inv.source_fresh (hi : Inv st) {answer : Answer} {holding : Bool}
    {loaded : Option (T × Nat)} (hpc : (st.tasks t).pc = .apply holding loaded)
    (hop : (st.tasks t).op ≠ .remove) (hg : fallsBack st (.run t answer) = false)
    {data : T} {b : Nat} (hs : source loaded (st.cached t) = some (data, b)) :
    st.deletions ≤ b := by
  cases loaded with
  | some d =>
    refine (hi.tasks t).fresh b ?_
    have hd : d = (data, b) := by simpa [source] using hs
    rw [hpc, hd]
    rfl
  | none =>
    cases hc : st.cached t with
    | none => simp [source, hc] at hs
    | some e =>
      have hb : e.born = b := by
        simp only [source, hc, Option.map_some, Option.none_or, Option.some.injEq,
          Prod.mk.injEq] at hs
        exact hs.2
      simp only [fallsBack, hpc, hc] at hg
      cases hopc : (st.tasks t).op with
      | remove => exact absurd hopc hop
      | get => simpa [hopc, hb] using hg
      | getOrCreate => simpa [hopc, hb] using hg
      | update f => simpa [hopc, hb] using hg

variable [Inhabited T]

theorem Inv.getD_fresh (hi : Inv st) {answer : Answer} {holding : Bool}
    {loaded : Option (T × Nat)} (hpc : (st.tasks t).pc = .apply holding loaded)
    (hop : (st.tasks t).op ≠ .remove) (hg : fallsBack st (.run t answer) = false)
    {data : T} {b : Nat}
    (hs : (source loaded (st.cached t)).getD (default, st.deletions) = (data, b)) :
    st.deletions ≤ b := by
  cases hsrc : source loaded (st.cached t) with
  | none =>
    rw [hsrc] at hs
    cases hs
    exact Nat.le_refl _
  | some d =>
    rw [hsrc] at hs
    exact hi.source_fresh hpc hop hg (by rw [hsrc]; exact congrArg some hs)

theorem Inv.apply {answer : Answer} (hi : Inv st) {holding : Bool} {loaded : Option (T × Nat)}
    (hpc : (st.tasks t).pc = .apply holding loaded)
    (hg : fallsBack st (.run t answer) = false)
    (hex : Exclusive (applySection st t holding loaded)) :
    Inv (applySection st t holding loaded) := by
  have hin : (st.tasks t).pc.critical = true := by rw [hpc]; rfl
  have htask := hi.tasks t
  have hrecord := fun p hp => hi.record_fresh hin (by rw [hpc]; simp) (p := p) hp
  have hstart : (st.tasks t).start ≤ st.deletions := Nat.le_trans htask.start hi.completed
  rcases applySection_cases st t holding loaded with
    ⟨hop, hsrc, h⟩ | ⟨data, b, hsrc, h⟩ | ⟨f, data, b, hop, hsrc, h⟩ | ⟨hop, h⟩
  · rw [h] at hex ⊢
    exact hi.inside hin hex rfl (Nat.le_refl _) (Nat.le_refl _)
      ⟨by simp [born], by simp, htask.start, htask.epoch⟩ (fun p hp => .inl (hrecord p hp))
      hi.completed hi.uses
  · have hfresh : st.deletions ≤ b := by
      rcases hsrc with ⟨hop, hsrc⟩ | ⟨hop, hsrc⟩
      · exact hi.source_fresh hpc (by simp [hop]) hg hsrc
      · exact hi.getD_fresh hpc (by simp [hop]) hg hsrc
    rw [h] at hex ⊢
    exact hi.inside hin hex rfl (Nat.le_refl _) (Nat.le_refl _)
      ⟨by rintro b' hb; cases hb; exact hfresh, by simp, htask.start, htask.epoch⟩
      (fun p hp => .inl (hrecord p hp)) hi.completed hi.uses
  · have hfresh : st.deletions ≤ b := hi.getD_fresh hpc (by simp [hop]) hg hsrc
    rw [h] at hex ⊢
    refine hi.inside hin hex rfl (Nat.le_refl _) (Nat.le_refl _)
      ⟨by rintro b' hb; cases hb; exact Nat.le_refl _, by simp, htask.start, htask.epoch⟩
      (fun p hp => .inl (hrecord p hp)) hi.completed ?_
    intro u hu
    rcases List.mem_cons.mp hu with rfl | hu
    · exact Nat.le_trans hstart hfresh
    · exact hi.uses u hu
  · rw [h] at hex ⊢
    have hborn : born (if (source loaded (st.cached t)).isSome then Pc.delete (T := T) holding
        else .unlock holding) = none := by split <;> rfl
    refine hi.inside hin hex rfl (Nat.le_succ _) (Nat.le_refl _) ⟨?_, ?_, htask.start, ?_⟩ ?_
      (Nat.le_succ_of_le hi.completed) hi.uses
    · intro b hb
      rw [hborn] at hb
      cases hb
    · intro h' hpc'
      split at hpc' <;> cases hpc'
    · exact Nat.le_refl _
    · intro p hp
      right
      refine ⟨holding, ?_⟩
      -- A record that is still there was loaded, so there is something to delete.
      have hsome : (source loaded (st.cached t)).isSome = true := by
        cases loaded with
        | some d => simp [source]
        | none =>
          have hnone := htask.absent holding hpc
          rw [show st.record = some p from hp] at hnone
          cases hnone
      simp [hsome]

theorem Inv.run {ttl : Nat} {answer : Answer} (hi : Inv st)
    (hr : reliable st (.run t answer) = true) (hg : fallsBack st (.run t answer) = false)
    (hs : runSection ttl st t answer = some st') : Inv st' := by
  have hex := hi.exclusive.run hr hs
  have hok := run_ok hr
  subst hok
  have htask := hi.tasks t
  cases hpc : (st.tasks t).pc with
  | idle => simp [runSection, hpc] at hs
  | done => simp [runSection, hpc] at hs
  | lockMutation =>
    simp only [runSection, hpc] at hs
    split at hs
    · cases hs
      exact hi.outside (by rw [hpc]; rfl) hex rfl rfl rfl rfl rfl
        ⟨by simp [born], by simp, htask.start, htask.epoch⟩
    · cases hs
  | lockDist deadline =>
    rcases lockDist_cases hpc hr hs with ⟨-, rfl⟩ | rfl
    · exact hi.outside (by rw [hpc]; rfl) hex rfl rfl rfl rfl rfl
        ⟨by simp [born], by simp, htask.start, htask.epoch⟩
    · exact hi
  | load holding =>
    have hin : (st.tasks t).pc.critical = true := by rw [hpc]; rfl
    have hrecord := fun p hp => hi.record_fresh hin (by rw [hpc]; simp) (p := p) hp
    rcases load_cases hpc hs with ⟨hnone, rfl⟩ | ⟨p, hp, ⟨-, rfl⟩ | ⟨-, rfl⟩⟩
    · exact hi.inside hin hex rfl (Nat.le_refl _) (Nat.le_refl _)
        ⟨by simp [born], fun _ _ => hnone, htask.start, htask.epoch⟩
        (fun p hp => .inl (hrecord p hp)) hi.completed hi.uses
    · exact hi.inside hin hex rfl (Nat.le_refl _) (Nat.le_refl _)
        ⟨by simp [born], by simp, htask.start, htask.epoch⟩
        (fun p hp => .inl (hrecord p hp)) hi.completed hi.uses
    · exact hi.inside hin hex rfl (Nat.le_refl _) (Nat.le_refl _)
        ⟨by rintro b hb; cases hb; exact hrecord p hp, by simp, htask.start, htask.epoch⟩
        (fun p hp => .inl (hrecord p hp)) hi.completed hi.uses
  | dropExpired holding =>
    have hin : (st.tasks t).pc.critical = true := by rw [hpc]; rfl
    simp only [runSection, hpc] at hs
    cases hs
    exact hi.inside hin hex rfl (Nat.le_refl _) (Nat.le_refl _)
      ⟨by simp [born], fun _ _ => rfl, htask.start, htask.epoch⟩ (fun p hp => by cases hp)
      hi.completed hi.uses
  | apply holding loaded =>
    simp only [runSection, hpc] at hs
    cases hs
    exact hi.apply hpc hg hex
  | persist holding data b =>
    have hin : (st.tasks t).pc.critical = true := by rw [hpc]; rfl
    have hfresh : st.deletions ≤ b := htask.fresh b (by rw [hpc]; rfl)
    simp only [runSection, hpc] at hs
    cases hs
    refine hi.inside hin hex rfl (Nat.le_refl _) (Nat.le_refl _)
      ⟨by simp [born], by simp, htask.start, htask.epoch⟩
      (fun p hp => by cases hp; exact .inl hfresh) hi.completed ?_
    intro u hu
    rcases List.mem_cons.mp hu with rfl | hu
    · exact Nat.le_trans (Nat.le_trans htask.start hi.completed) hfresh
    · exact hi.uses u hu
  | delete holding =>
    have hin : (st.tasks t).pc.critical = true := by rw [hpc]; rfl
    simp only [runSection, hpc] at hs
    cases hs
    exact hi.inside hin hex rfl (Nat.le_refl _) (Nat.le_refl _)
      ⟨by simp [born], by simp, htask.start, htask.epoch⟩ (fun p hp => by cases hp)
      hi.completed hi.uses
  | unlock holding =>
    have hin : (st.tasks t).pc.critical = true := by rw [hpc]; rfl
    have hrecord := fun p hp => hi.record_fresh hin (by rw [hpc]; simp) (p := p) hp
    simp only [runSection, hpc] at hs
    cases hs
    exact hi.inside hin hex rfl (Nat.le_refl _) (Nat.le_max_left _ _)
      ⟨by simp [born], by simp, Nat.le_trans htask.start (Nat.le_max_left _ _), htask.epoch⟩
      (fun p hp => .inl (hrecord p hp)) (Nat.max_le.mpr ⟨hi.completed, htask.epoch⟩) hi.uses

theorem Inv.step {ttl : Nat} {l : Label T} (hi : Inv st) (hr : reliable st l = true)
    (hg : fallsBack st l = false) (hs : step ttl st l = some st') : Inv st' := by
  cases l with
  | tick d unix =>
    cases hs
    exact ⟨⟨hi.exclusive.guards, hi.exclusive.holds⟩, hi.tasks, hi.record, hi.completed, hi.uses⟩
  | call t replica op =>
    have hex := hi.exclusive.step hr hs
    simp only [Session.step] at hs
    split at hs
    · rename_i hpc
      cases hs
      exact hi.outside (by rw [hpc]; rfl) hex rfl rfl rfl rfl rfl
        ⟨by simp [born], by simp, Nat.le_refl _, Nat.zero_le _⟩
    · cases hs
  | run t answer => exact hi.run hr hg hs
  | lapse =>
    cases hs
    refine ⟨⟨hi.exclusive.guards, hi.exclusive.holds⟩, fun t => ?_,
      (fun p hp => by cases hp), hi.completed, hi.uses⟩
    exact ⟨(hi.tasks t).fresh, fun _ _ => rfl, (hi.tasks t).start, (hi.tasks t).epoch⟩

omit [Inhabited T] in
theorem inv_init (clock : Clock) (record : Option (PersistedSession T)) :
    Inv (init clock record) := by
  refine ⟨exclusive_init clock record, fun t => ?_, fun p _ => .inl (Nat.zero_le _),
    Nat.le_refl _, fun u hu => ?_⟩
  · exact ⟨by simp [init, idleTask, born], by simp [init, idleTask], Nat.le_refl _, Nat.le_refl _⟩
  · simp [init] at hu

end Removal

/-! ## Removed stays removed -/

/-- **Without a stale fallback a removed session stays removed.** On any number
of replicas over a reliable backend, in every run in which no operation falls
back on a copy cached before the last removal, no operation writes back or
passes to its closure data written before a removal that had completed when the
operation started. -/
theorem not_resurrected_of_no_fallback [Inhabited T] (ttl : Nat) (clock : Clock)
    (record : Option (PersistedSession T)) (st : State T)
    (hr : (system ttl).Reach (fun st l => reliable st l = true ∧ fallsBack st l = false)
      (init clock record) st) : NotResurrected st :=
  (hr.invariant (Removal.inv_init clock record)
    fun _ _ _ hi hg hs => hi.step hg.1 hg.2 hs).uses

namespace Removal

/-- All sections of task `t`, from its call. -/
def whole (t replica : Nat) (op : Op Nat) (sections : Nat) : List (Label Nat) :=
  .call t replica op :: List.replicate sections (.run t .ok)

end Removal

open Removal in
/-- One replica updates the session, removes it and updates it again: the last
update starts from the default. -/
theorem not_resurrected_on_one_replica :
    ∃ st : State Nat, (system (Duration.fromSecs 60)).Reach
        (fun st l => reliable st l = true ∧ fallsBack st l = false)
        (init ⟨0, 0⟩ none) st ∧ NotResurrected st ∧
      st.completed = 1 ∧ st.record.map (·.data) = some 1 := by
  obtain ⟨st, hr, hp⟩ := System.exists_reach_of_run (S := system (T := Nat) (Duration.fromSecs 60))
    (G := fun st l => reliable st l = true ∧ fallsBack st l = false) (s := init ⟨0, 0⟩ none)
    (w := whole 0 0 (.update (· + 1)) 6 ++ whole 1 0 .remove 6 ++
      whole 2 0 (.update (· + 1)) 6)
    (p := fun st => decide (st.completed = 1 ∧ st.record.map (·.data) = some 1)) (by decide +kernel)
  simp only [decide_eq_true_eq] at hp
  exact ⟨st, hr, not_resurrected_of_no_fallback _ _ _ st hr, hp.1, hp.2⟩

open Removal in
/-- A second replica has cached the session when the first removes it. Its next
`get` finds no record, answers from its cache and writes it back. -/
theorem second_replica_resurrects :
    ¬ ∀ (ttl : Nat) (clock : Clock) (record : Option (PersistedSession Nat)) (st : State Nat),
      (system ttl).Reach (fun st l => reliable st l = true) (init clock record) st →
        NotResurrected st := by
  intro h
  obtain ⟨st, hr, hp⟩ := System.exists_reach_of_run (S := system (T := Nat) (Duration.fromSecs 60))
    (G := fun st l => reliable st l = true) (s := init ⟨0, 0⟩ none)
    (w := whole 0 0 (.update (· + 1)) 6 ++ whole 1 1 .get 6 ++ whole 2 0 .remove 6 ++
      whole 3 1 .get 6)
    (p := fun st => decide (⟨1, 0⟩ ∈ st.uses)) (by decide +kernel)
  simp only [decide_eq_true_eq] at hp
  exact absurd (h _ _ _ st hr _ hp) (by decide)

end McpFramework.Session
