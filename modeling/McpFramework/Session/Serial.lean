import McpFramework.Session.Protocol

/-!
# Session — Serial

No update is lost: over a reliable backend whose record neither expires nor is
removed, the record is what the closures of all updates make of the initial
value, each run once, in the order in which they ran (`no_lost_update`).

The distributed lock makes the section from the backend read to the persist one
unit. Inside it the operation works on the record's data, which is the result of
the closures so far; a replica's cached copy is looked at only while there is no
record at all, and then no replica has one.
-/

namespace McpFramework.Session

open Lib

variable {T : Type*}

/-- What an operation makes of the data. -/
def Op.closure : Op T → T → T
  | .update f => f
  | _ => id

/-- The result of the closures of `order`, one after the other. -/
def replay (tasks : Nat → Task T) (order : List Nat) (v : T) : T :=
  order.foldl (fun v t => (tasks t).op.closure v) v

/-- No removal is started, the backend drops no record, and none that is loaded
has expired. -/
def durable (st : State T) : Label T → Bool
  | .call _ _ .remove => false
  | .lapse => false
  | .run t _ =>
    match (st.tasks t).pc, st.record with
    | .load _, some p => !p.expired st.clock
    | _, _ => true
  | _ => true

namespace Serial

/-- The closure has yet to run. -/
def pending : Pc T → Bool
  | .idle => true
  | .lockMutation => true
  | .lockDist _ => true
  | .load _ => true
  | .dropExpired _ => true
  | .apply _ _ => true
  | _ => false

/-- The record is about to go. -/
def discards : Pc T → Bool
  | .dropExpired _ => true
  | .delete _ => true
  | _ => false

def persisting : Pc T → Bool
  | .persist _ _ _ => true
  | _ => false

/-! ## Replaying closures -/

section Replay

variable {tasks : Nat → Task T} {order : List Nat} {t : Nat} {task : Task T} {v : T}

/-- Only the operations in the order matter. -/
theorem replay_update (h : t ∈ order → task.op = (tasks t).op) :
    replay (Function.update tasks t task) order v = replay tasks order v := by
  induction order generalizing v with
  | nil => rfl
  | cons u order ih =>
    have hop : (Function.update tasks t task u).op = (tasks u).op := by
      by_cases hu : u = t
      · subst hu
        rw [Function.update_self]
        exact h (by simp)
      · rw [Function.update_of_ne hu]
    have hrest := ih (v := (tasks u).op.closure v) (fun ht => h (List.mem_cons_of_mem u ht))
    calc replay (Function.update tasks t task) (u :: order) v
        = replay (Function.update tasks t task) order
            ((Function.update tasks t task u).op.closure v) := rfl
      _ = replay (Function.update tasks t task) order ((tasks u).op.closure v) := by rw [hop]
      _ = replay tasks (u :: order) v := hrest

/-- The next closure runs. -/
theorem replay_next (h : task.op = (tasks t).op) :
    replay (Function.update tasks t task) (order ++ [t]) v =
      (tasks t).op.closure (replay tasks order v) := by
  calc replay (Function.update tasks t task) (order ++ [t]) v
      = (Function.update tasks t task t).op.closure
          (replay (Function.update tasks t task) order v) := by simp [replay, List.foldl_append]
    _ = (tasks t).op.closure (replay tasks order v) := by
      rw [Function.update_self, h, replay_update (fun _ => h)]

end Replay

/-! ## The invariant -/

/-- An operation inside the section carries the record's data before its closure
runs and the closures' result after it. -/
structure TaskOk (record : Option (PersistedSession T)) (applied : List Nat) (value : T)
    (t : Nat) (task : Task T) : Prop where
  keeps : task.op ≠ .remove ∧ discards task.pc = false
  pending : pending task.pc = true → t ∉ applied
  applied : Serial.pending task.pc = false → ∀ f, task.op = .update f → t ∈ applied
  loaded : ∀ h d b, task.pc = .apply h (some (d, b)) → ∃ p, record = some p ∧ p.data = d
  absent : ∀ h, task.pc = .apply h none → record = none
  current : ∀ h d b, task.pc = .persist h d b → d = value

/-- The result of the closures so far. -/
def value (st : State T) (v : T) : T := replay st.tasks st.applied v

def Persisting (st : State T) : Prop := ∃ t, persisting (st.tasks t).pc = true

/-- Nothing has been written yet. -/
def Untouched (st : State T) : Prop :=
  st.applied = [] ∧ ∀ r, (st.replicas r).entry = none

/-- The invariant of the runs from `record`. -/
structure Inv [Inhabited T] (record : Option (PersistedSession T)) (st : State T) : Prop where
  exclusive : Exclusive st
  tasks : ∀ t, TaskOk st.record st.applied
    (value st ((record.map (·.data)).getD default)) t (st.tasks t)
  updates : ∀ t ∈ st.applied, ∃ f, (st.tasks t).op = .update f
  nodup : st.applied.Nodup
  present : ∀ p, st.record = some p →
    p.data = value st ((record.map (·.data)).getD default) ∨ Persisting st
  absent : st.record = none → (Untouched st ∧ record = none) ∨ Persisting st

section

variable {record record' : Option (PersistedSession T)} {applied applied' : List Nat} {v v' : T}
  {st st' : State T} {t : Nat} {task : Task T}

theorem TaskOk.outside (h : TaskOk record applied v t task) (hout : task.pc.critical = false)
    (ha : t ∈ applied' ↔ t ∈ applied) : TaskOk record' applied' v' t task := by
  refine ⟨h.keeps, ?_, ?_, ?_, ?_, ?_⟩
  · intro hp hm
    exact h.pending hp (ha.mp hm)
  · intro hp f hop
    exact ha.mpr (h.applied hp f hop)
  all_goals
    intros
    simp_all [Pc.critical]

/-- A task that moves on without touching anything of the section. -/
theorem TaskOk.goto (h : TaskOk record applied v t task) {pc : Pc T}
    (hd : discards pc = false) (hp : Serial.pending pc = Serial.pending task.pc)
    (hloaded : ∀ h d b, pc = .apply h (some (d, b)) → ∃ p, record = some p ∧ p.data = d)
    (habsent : ∀ h, pc = .apply h none → record = none) (hpers : persisting pc = false) :
    TaskOk record applied v t { task with pc := pc } := by
  refine ⟨⟨h.keeps.1, hd⟩, ?_, ?_, hloaded, habsent, ?_⟩
  · intro hpend
    exact h.pending (hp ▸ hpend)
  · intro hpend
    exact h.applied (hp ▸ hpend)
  · rintro h d b rfl
    cases hpers

/-- A task that is past its memory section. -/
theorem TaskOk.past {pc : Pc T} (hkeeps : task.op ≠ .remove) (hd : discards pc = false)
    (hp : Serial.pending pc = false) (happlied : ∀ f, task.op = .update f → t ∈ applied)
    (hcurrent : ∀ h d b, pc = .persist h d b → d = v) :
    TaskOk record applied v t { task with pc := pc } := by
  refine ⟨⟨hkeeps, hd⟩, ?_, fun _ => happlied, ?_, ?_, hcurrent⟩
  · intro hpend
    rw [hp] at hpend
    cases hpend
  · rintro h d b rfl
    cases hp
  · rintro h rfl
    cases hp

/-- While someone else is in the section nobody is persisting. -/
theorem not_persisting (hex : Exclusive st) (hin : (st.tasks t).pc.critical = true)
    (hnot : persisting (st.tasks t).pc = false) : ¬ Persisting st := by
  rintro ⟨u, hu⟩
  by_cases hut : u = t
  · subst hut
    rw [hnot] at hu
    cases hu
  · have hout := hex.alone hin hut
    cases hpc : (st.tasks u).pc <;> simp [hpc, persisting, Pc.critical] at hu hout

variable [Inhabited T]

/-- Moves that touch neither the record nor a cache nor the closures run. -/
theorem Inv.move (hi : Inv record st) (hex : Exclusive st')
    (htasks : st'.tasks = Function.update st.tasks t task)
    (hop : t ∈ st.applied → task.op = (st.tasks t).op) (hr : st'.record = st.record)
    (ha : st'.applied = st.applied)
    (he : ∀ r, (st'.replicas r).entry = (st.replicas r).entry)
    (hnot : persisting (st.tasks t).pc = false)
    (htask : TaskOk st.record st.applied (value st ((record.map (·.data)).getD default)) t task) :
    Inv record st' := by
  have hval : value st' ((record.map (·.data)).getD default) =
      value st ((record.map (·.data)).getD default) := by
    rw [value, value, htasks, ha]
    exact replay_update hop
  have hpers : Persisting st → Persisting st' := by
    rintro ⟨u, hu⟩
    have hne : u ≠ t := by
      rintro rfl
      rw [hnot] at hu
      cases hu
    exact ⟨u, by rw [htasks, Function.update_of_ne hne, hu]⟩
  refine ⟨hex, ?_, ?_, ?_, ?_, ?_⟩
  · rw [hval, htasks, hr, ha]
    exact (forall_update_iff (P := fun u (task : Task T) => TaskOk st.record st.applied
      (value st ((record.map (·.data)).getD default)) u task)).mpr
      ⟨htask, fun u _ => hi.tasks u⟩
  · intro u hu
    rw [ha] at hu
    obtain ⟨f, hf⟩ := hi.updates u hu
    refine ⟨f, ?_⟩
    rw [htasks]
    by_cases hut : u = t
    · subst hut
      rw [Function.update_self, hop hu, hf]
    · rw [Function.update_of_ne hut, hf]
  · rw [ha]
    exact hi.nodup
  · intro p hp
    rw [hr] at hp
    rw [hval]
    exact (hi.present p hp).imp_right hpers
  · intro hnone
    rw [hr] at hnone
    rcases hi.absent hnone with ⟨⟨happ, hent⟩, hrec⟩ | h
    · exact .inl ⟨⟨by rw [ha, happ], fun r => by rw [he, hent]⟩, hrec⟩
    · exact .inr (hpers h)

/-- What the memory section starts from is the result of the closures so far. -/
theorem Inv.source_eq (hi : Inv record st) {holding : Bool} {loaded : Option (T × Nat)}
    (hpc : (st.tasks t).pc = .apply holding loaded) :
    ((source loaded (st.cached t)).getD (default, st.deletions)).1 =
      value st ((record.map (·.data)).getD default) := by
  have hin : (st.tasks t).pc.critical = true := by rw [hpc]; rfl
  have hnot := not_persisting hi.exclusive hin (by rw [hpc]; rfl)
  cases loaded with
  | some d =>
    obtain ⟨p, hp, hd⟩ := (hi.tasks t).loaded holding d.1 d.2 hpc
    have hdata := (hi.present p hp).resolve_right hnot
    simp [source, ← hd, hdata]
  | none =>
    have hnone := (hi.tasks t).absent holding hpc
    obtain ⟨⟨happ, hent⟩, hrec⟩ := (hi.absent hnone).resolve_right hnot
    have hcache : st.cached t = none := hent _
    simp [source, hcache, value, happ, replay, hrec]

/-- The memory section of an operation that goes on to persist `data`, the
result of the closures run so far. -/
theorem Inv.persist (hi : Inv record st) (hin : (st.tasks t).pc.critical = true)
    (hex : Exclusive st') {holding : Bool} {data : T} {b : Nat}
    (htasks : st'.tasks =
      Function.update st.tasks t { st.tasks t with pc := .persist holding data b })
    (ha : ∀ u, u ≠ t → (u ∈ st'.applied ↔ u ∈ st.applied))
    (hmine : (∃ f, (st.tasks t).op = .update f) ↔ t ∈ st'.applied)
    (hnodup : st'.applied.Nodup)
    (hval : value st' ((record.map (·.data)).getD default) = data) : Inv record st' := by
  have hself : (st'.tasks t).pc = .persist holding data b := by
    rw [htasks, Function.update_self]
  have hpers : Persisting st' := ⟨t, by rw [hself]; rfl⟩
  refine ⟨hex, ?_, ?_, hnodup, fun _ _ => .inr hpers, fun _ => .inr hpers⟩
  · rw [hval, htasks]
    refine (forall_update_iff (P := fun u (task : Task T) => TaskOk st'.record st'.applied
      data u task)).mpr ⟨.past (hi.tasks t).keeps.1 rfl rfl ?_ ?_, fun u hu => ?_⟩
    · exact fun f hf => hmine.mp ⟨f, hf⟩
    · intro h d b h'
      cases h'
      rfl
    · exact (hi.tasks u).outside (hi.exclusive.alone hin hu) (ha u hu)
  · intro u hu
    rw [htasks]
    by_cases hut : u = t
    · subst hut
      rw [Function.update_self]
      exact hmine.mpr hu
    · rw [Function.update_of_ne hut]
      exact hi.updates u ((ha u hut).mp hu)

theorem Inv.apply (hi : Inv record st) {holding : Bool} {loaded : Option (T × Nat)}
    (hpc : (st.tasks t).pc = .apply holding loaded)
    (hex : Exclusive (applySection st t holding loaded)) :
    Inv record (applySection st t holding loaded) := by
  have hin : (st.tasks t).pc.critical = true := by rw [hpc]; rfl
  have htask := hi.tasks t
  have hfresh : t ∉ st.applied := htask.pending (by rw [hpc]; rfl)
  have hsource := hi.source_eq hpc
  rcases applySection_cases st t holding loaded with
    ⟨hop, -, h⟩ | ⟨data, b, hsrc, h⟩ | ⟨f, data, b, hop, hsrc, h⟩ | ⟨hop, -⟩
  · -- A `get` that found nothing writes nothing.
    rw [h] at hex ⊢
    refine hi.move hex rfl (fun _ => rfl) rfl rfl (fun _ => rfl) (by rw [hpc]; rfl)
      (.past htask.keeps.1 rfl rfl ?_ ?_)
    · intro f hf
      rw [hop] at hf
      cases hf
    · intro h d b h'
      cases h'
  · -- A read persists what it found, the result of the closures so far.
    have hdata : data = value st ((record.map (·.data)).getD default) := by
      rcases hsrc with ⟨-, hs⟩ | ⟨-, hs⟩
      · rw [← hsource, hs]
        rfl
      · rw [← hsource, hs]
    have hnot : ¬ ∃ f, (st.tasks t).op = .update f := by
      rintro ⟨f, hf⟩
      rcases hsrc with ⟨hop, -⟩ | ⟨hop, -⟩ <;> rw [hop] at hf <;> cases hf
    rw [h] at hex ⊢
    refine hi.persist hin hex rfl (fun _ _ => Iff.rfl) (iff_of_false hnot hfresh) hi.nodup ?_
    rw [hdata]
    exact replay_update (fun _ => rfl)
  · -- An update runs its closure on that result, after those of the others.
    have hdata : data = value st ((record.map (·.data)).getD default) := by
      rw [← hsource, hsrc]
    rw [h] at hex ⊢
    refine hi.persist hin hex rfl ?_ ?_ ?_ ?_
    · intro u hu
      simp [hu]
    · exact iff_of_true ⟨f, hop⟩ (List.mem_append_right _ (List.mem_singleton_self t))
    · exact List.nodup_append.mpr ⟨hi.nodup, List.pairwise_singleton _ t, by
        rintro u hu w hw rfl
        rw [List.mem_singleton] at hw
        subst hw
        exact hfresh hu⟩
    · change replay (Function.update st.tasks t _) (st.applied ++ [t]) _ = _
      rw [replay_next, hop, hdata]
      · rfl
      · rfl
  · exact absurd hop htask.keeps.1

theorem Inv.run {ttl : Nat} {answer : Answer} (hi : Inv record st)
    (hr : reliable st (.run t answer) = true) (hg : durable st (.run t answer) = true)
    (hs : runSection ttl st t answer = some st') : Inv record st' := by
  have hex := hi.exclusive.run hr hs
  have hok := run_ok hr
  subst hok
  have htask := hi.tasks t
  cases hpc : (st.tasks t).pc with
  | idle => simp [runSection, hpc] at hs
  | done => simp [runSection, hpc] at hs
  | lockMutation =>
    simp only [runSection, hpc] at hs
    split at hs
    · cases hs
      refine hi.move hex rfl (fun _ => rfl) rfl rfl ?_ (by rw [hpc]; rfl)
        (htask.goto rfl (by rw [hpc]; rfl) (by simp) (by simp) rfl)
      exact (forall_update_iff (P := fun r (replica : Replica T) =>
        replica.entry = (st.replicas r).entry)).mpr ⟨rfl, fun _ _ => rfl⟩
    · cases hs
  | lockDist deadline =>
    rcases lockDist_cases hpc hr hs with ⟨-, rfl⟩ | rfl
    · exact hi.move hex rfl (fun _ => rfl) rfl rfl (fun _ => rfl) (by rw [hpc]; rfl)
        (htask.goto rfl (by rw [hpc]; rfl) (by simp) (by simp) rfl)
    · exact hi
  | load holding =>
    rcases load_cases hpc hs with ⟨hnone, rfl⟩ | ⟨p, hp, ⟨hx, -⟩ | ⟨-, rfl⟩⟩
    · exact hi.move hex rfl (fun _ => rfl) rfl rfl (fun _ => rfl) (by rw [hpc]; rfl)
        (htask.goto rfl (by rw [hpc]; rfl) (by simp) (fun _ _ => hnone) rfl)
    · simp [durable, hpc, hp, hx] at hg
    · refine hi.move hex rfl (fun _ => rfl) rfl rfl (fun _ => rfl) (by rw [hpc]; rfl)
        (htask.goto rfl (by rw [hpc]; rfl) ?_ (by simp) rfl)
      intro h d b hload
      cases hload
      exact ⟨p, hp, rfl⟩
  | dropExpired holding | delete holding =>
    have hdiscards := htask.keeps.2
    rw [hpc] at hdiscards
    cases hdiscards
  | apply holding loaded =>
    simp only [runSection, hpc] at hs
    cases hs
    exact hi.apply hpc hex
  | persist holding data b =>
    have hin : (st.tasks t).pc.critical = true := by rw [hpc]; rfl
    have hcur := htask.current holding data b hpc
    simp only [runSection, hpc] at hs
    cases hs
    have hval (v : T) :
        replay (Function.update st.tasks t { st.tasks t with pc := .unlock holding })
          st.applied v = replay st.tasks st.applied v := replay_update (fun _ => rfl)
    refine ⟨hex, ?_, ?_, hi.nodup, ?_, ?_⟩
    · refine (forall_update_iff (P := fun u (task : Task T) => TaskOk _ st.applied
        _ u task)).mpr ⟨.past htask.keeps.1 rfl rfl ?_ ?_, fun u hu => ?_⟩
      · exact htask.applied (by rw [hpc]; rfl)
      · intro h d b h'
        cases h'
      · exact (hi.tasks u).outside (hi.exclusive.alone hin hu) Iff.rfl
    · intro u hu
      obtain ⟨f, hf⟩ := hi.updates u hu
      refine ⟨f, ?_⟩
      by_cases hut : u = t
      · subst hut
        simpa [State.goto, State.setTask] using hf
      · simpa [State.goto, State.setTask, Function.update_of_ne hut] using hf
    · intro p hp
      cases hp
      left
      exact hcur.trans (hval _).symm
    · intro hnone
      cases hnone
  | unlock holding =>
    simp only [runSection, hpc] at hs
    cases hs
    refine hi.move hex rfl (fun _ => rfl) rfl rfl ?_ (by rw [hpc]; rfl)
      (htask.goto rfl (by rw [hpc]; rfl) (by simp) (by simp) rfl)
    exact (forall_update_iff (P := fun r (replica : Replica T) =>
      replica.entry = (st.replicas r).entry)).mpr ⟨rfl, fun _ _ => rfl⟩

theorem Inv.step {ttl : Nat} {l : Label T} (hi : Inv record st) (hr : reliable st l = true)
    (hg : durable st l = true) (hs : step ttl st l = some st') : Inv record st' := by
  cases l with
  | tick d unix =>
    cases hs
    exact ⟨⟨hi.exclusive.guards, hi.exclusive.holds⟩, hi.tasks, hi.updates, hi.nodup, hi.present,
      hi.absent⟩
  | call t replica op =>
    have hex := hi.exclusive.step hr hs
    simp only [Session.step] at hs
    split at hs
    · rename_i hpc
      have hfresh : t ∉ st.applied := (hi.tasks t).pending (by rw [hpc]; rfl)
      have hop : op ≠ .remove := by
        rintro rfl
        cases hg
      cases hs
      refine hi.move hex rfl (fun h => absurd h hfresh) rfl rfl (fun _ => rfl) (by rw [hpc]; rfl)
        ⟨⟨hop, rfl⟩, fun _ => hfresh, ?_, ?_, ?_, ?_⟩
      all_goals
        intros
        simp_all [Serial.pending]
    · cases hs
  | run t answer => exact hi.run hr hg hs
  | lapse => cases hg

theorem inv_init (clock : Clock) (record : Option (PersistedSession T)) :
    Inv record (init clock record) := by
  refine ⟨exclusive_init clock record, fun t => ?_, fun t ht => ?_, List.nodup_nil, ?_, ?_⟩
  · exact ⟨⟨by simp [init, idleTask], rfl⟩, by simp [init],
      by simp [init, idleTask, Serial.pending], by simp [init, idleTask],
      by simp [init, idleTask], by simp [init, idleTask]⟩
  · simp [init] at ht
  · intro p hp
    left
    have hp : record = some p := hp
    simp [value, init, replay, hp]
  · intro hnone
    exact .inl ⟨⟨rfl, fun _ => rfl⟩, hnone⟩

end

end Serial

/-! ## No lost update -/

/-- **No update is lost.** On any number of replicas that start with empty
caches over a reliable backend, when all operations have completed, the closures
of exactly the updates that were called have run, once each, and the persisted
value is what they make of the initial one in the order they ran. -/
theorem no_lost_update [Inhabited T] (ttl : Nat) (clock : Clock)
    (record : Option (PersistedSession T)) (st : State T)
    (hr : (system ttl).Reach (fun st l => reliable st l = true ∧ durable st l = true)
      (init clock record) st)
    (hdone : ∀ t, (st.tasks t).pc = .idle ∨ (st.tasks t).pc = .done) :
    st.applied.Nodup ∧
      (∀ t, t ∈ st.applied ↔ (st.tasks t).pc = .done ∧ ∃ f, (st.tasks t).op = .update f) ∧
      (st.record.map (·.data)).getD default =
        replay st.tasks st.applied ((record.map (·.data)).getD default) ∧
      (st.record = none → record = none ∧ st.applied = []) := by
  have hi : Serial.Inv record st := hr.invariant (Serial.inv_init clock record)
    fun _ _ _ hi hg hs => hi.step hg.1 hg.2 hs
  have hnot : ¬ Serial.Persisting st := by
    rintro ⟨t, ht⟩
    rcases hdone t with h | h <;> rw [h] at ht <;> cases ht
  refine ⟨hi.nodup, fun t => ⟨fun ht => ⟨?_, hi.updates t ht⟩, ?_⟩, ?_, ?_⟩
  · refine (hdone t).resolve_left fun hidle => ?_
    exact (hi.tasks t).pending (by rw [hidle]; rfl) ht
  · rintro ⟨hpc, f, hf⟩
    exact (hi.tasks t).applied (by rw [hpc]; rfl) f hf
  · cases hrec : st.record with
    | some p => exact (hi.present p hrec).resolve_right hnot
    | none =>
      obtain ⟨⟨happ, -⟩, hnone⟩ := (hi.absent hrec).resolve_right hnot
      simp [happ, hnone, replay]
  · intro hrec
    obtain ⟨⟨happ, -⟩, hnone⟩ := (hi.absent hrec).resolve_right hnot
    exact ⟨hnone, happ⟩

/-- Two replicas, the second of which waits for the first one's lock. -/
def contended : List (Label Nat) :=
  [.call 0 0 (.update (· * 2)), .call 1 1 (.update (· + 1)), .run 0 .ok, .run 1 .ok,
    .run 0 .ok, .run 1 .ok, .run 0 .ok, .run 0 .ok, .run 0 .ok, .run 0 .ok,
    .run 1 .ok, .run 1 .ok, .run 1 .ok, .run 1 .ok, .run 1 .ok]

/-- From 3 they get to 3 · 2 + 1. -/
theorem no_lost_update_when_contended :
    ∃ st : State Nat, st.applied = [0, 1] ∧ (st.record.map (·.data)).getD default = 7 ∧
      7 = replay st.tasks [0, 1] 3 := by
  have hsome : ((system (T := Nat) (Duration.fromSecs 60)).run
      (fun st l => reliable st l = true ∧ durable st l = true)
      (init ⟨0, 0⟩ (some ⟨3, none, 0⟩)) contended).isSome = true := by decide
  have h := no_lost_update _ _ _ _ (System.reach_get hsome)
    (fun | 0 => .inr rfl | 1 => .inr rfl | _ + 2 => .inl rfl)
  exact ⟨_, rfl, rfl, h.2.2.1⟩

end McpFramework.Session
