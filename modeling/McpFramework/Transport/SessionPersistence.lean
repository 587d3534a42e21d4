import McpFramework.Lib.Transition
import McpFramework.Persistence.Expiring

/-!
# Transport — SessionPersistence

The transport's sessions in the persistence backend
(`transport/session_persistence.rs`): any number of `load`, `store` and `delete`
calls by any number of instances, cut at the calls they make of the backend,
while time passes and others use other namespaces of it.

`load` reads an entry and then arms it again, and a peer's delete may land
between the two. What a call answers is what the entry was at moments within the
call (`Outcome`, `inv_reach`).
-/

namespace McpFramework.TransportSessions

open Lib

def NS_TRANSPORT_SESSIONS : Namespace := ⟨"mcp_transport_sessions", by decide⟩

/-- `serde_json` on the state of a session. -/
structure StateBytes (S : Type*) where
  toVec : S → Option (List UInt8)
  fromSlice : List UInt8 → Option S
  roundTrip : ∀ state bytes, toVec state = some bytes → fromSlice bytes = some state

/-- The lifetime of an entry, and whether the backend implements `touch`. -/
structure TransportSessionStore where
  ttl : Nat
  touches : Bool

variable {S : Type*}

inductive Request (S : Type*) where
  | load (id : String)
  | store (id : String) (state : S)
  | delete (id : String)

inductive Answer (S : Type*) where
  | state (state : Option S)
  | done
  | error

/-- A call before its next call of the backend. -/
inductive Pc (S : Type*) where
  | idle
  | get
  | touch (state : S)
  | set (bytes : List UInt8)
  | delete
  | done (answer : Answer S)

structure Task (S : Type*) where
  request : Request S
  pc : Pc S
  /-- Ghost: how much had happened when the call started. -/
  start : Nat
  /-- Ghost: every call of the backend so far was answered. -/
  clean : Bool

structure State (S : Type*) where
  backend : ExpiringBackend
  tasks : Nat → Task S
  /-- Ghost: what happened to the backend. -/
  history : List Event

/-- What becomes of a call of the backend: it may fail before it has taken
effect, or after. -/
inductive Fate where
  | answered
  | failed
  | lost

inductive Label (S : Type*) where
  | call (t : Nat) (request : Request S)
  | run (t : Nat) (fate : Fate)
  /-- Someone else's call, in another namespace. -/
  | other (op : Op)
  | elapse (ms : Nat)

def Request.id : Request S → String
  | .load id => id
  | .store id _ => id
  | .delete id => id

def idleTask : Task S := ⟨.delete "", .idle, 0, true⟩

def init : State S := ⟨ExpiringBackend.new, fun _ => idleTask, []⟩

section System

variable (store : TransportSessionStore) (codec : StateBytes S)

def begin : Request S → Pc S
  | .load _ => .get
  | .store _ state =>
    match codec.toVec state with
    | some bytes => .set bytes
    | none => .done .error
  | .delete _ => .delete

def backendOp (id : String) : Pc S → Option Op
  | .get => some (.get NS_TRANSPORT_SESSIONS id)
  | .touch _ => some (.touch NS_TRANSPORT_SESSIONS id store.ttl)
  | .set bytes => some (.set NS_TRANSPORT_SESSIONS id bytes (some store.ttl))
  | .delete => some (.delete NS_TRANSPORT_SESSIONS id)
  | _ => none

def receive : Pc S → Output → Pc S
  | .get, .value none => .done (.state none)
  | .get, .value (some bytes) =>
    match codec.fromSlice bytes with
    | some state => .touch state
    | none => .done .error
  | .get, _ => .done .error
  | .touch state, .touch .Armed => .done (.state (some state))
  | .touch state, .touch .Unsupported => .done (.state (some state))
  -- Gone meanwhile, or no verdict: the session is unknown.
  | .touch _, _ => .done (.state none)
  | .set _, .unit => .done .done
  | .set _, _ => .done .error
  | .delete, .unit => .done .done
  | .delete, _ => .done .error
  | pc, _ => pc

/-- The default `touch` of the trait does nothing. -/
def supports : Op → Bool
  | .touch _ _ _ => store.touches
  | _ => true

/-- What a call does to the backend, and what its caller gets. -/
def serve (backend : ExpiringBackend) (op : Op) (fate : Fate) : List Event × Output :=
  if supports store op then
    match fate with
    | .answered => ([.call op], (backend.call op).2)
    | .failed => ([], .error)
    | .lost => ([.call op], .error)
  else ([], .touch .Unsupported)

def answered : Fate → Bool
  | .answered => true
  | _ => false

def namespaceOf : Op → Namespace
  | .get ns _ => ns
  | .set ns _ _ _ => ns
  | .delete ns _ => ns
  | .keys ns => ns
  | .touch ns _ _ => ns

def State.happen (st : State S) (events : List Event) : State S :=
  { st with backend := st.backend.run events, history := st.history ++ events }

def State.setTask (st : State S) (t : Nat) (task : Task S) : State S :=
  { st with tasks := Function.update st.tasks t task }

def step (st : State S) : Label S → Option (State S)
  | .call t request =>
    match (st.tasks t).pc with
    | .idle => some (st.setTask t ⟨request, begin codec request, st.history.length, true⟩)
    | _ => none
  | .run t fate =>
    let task := st.tasks t
    (backendOp store task.request.id task.pc).map fun op =>
      let r := serve store st.backend op fate
      (st.happen r.1).setTask t
        { task with pc := receive codec task.pc r.2, clean := task.clean && answered fate }
  | .other op =>
    if namespaceOf op = NS_TRANSPORT_SESSIONS then none else some (st.happen [.call op])
  | .elapse ms => some (st.happen [.elapse ms])

def system : System (State S) (Label S) := ⟨step store codec⟩

/-! ## What a call answers -/

/-- The backend after a history. -/
def after (history : List Event) : ExpiringBackend := ExpiringBackend.new.run history

/-- It held at a moment since the call started. -/
def During (history : List Event) (start : Nat) (P : List Event → Prop) : Prop :=
  ∃ before rest, history = before ++ rest ∧ start ≤ before.length ∧ P before

/-- A read of the entry gives this state. -/
def Reads (id : String) (state : S) (before : List Event) : Prop :=
  ((after before).get NS_TRANSPORT_SESSIONS.name id).bind codec.fromSlice = some state

def Absent (id : String) (before : List Event) : Prop :=
  (after before).get NS_TRANSPORT_SESSIONS.name id = none

/-- The state was read within the call, and after that the entry, still there,
was armed again. -/
def Armed (history : List Event) (start : Nat) (id : String) (state : S) : Prop :=
  ∃ before rest,
    history = before ++ .call (.touch NS_TRANSPORT_SESSIONS id store.ttl) :: rest ∧
      ¬ Absent id before ∧ During before start (Reads codec id state)

/-- What is known of a call from where it stands. -/
def Outcome (history : List Event) (task : Task S) : Prop :=
  match task.request, task.pc with
  | _, .idle => True
  | .load id, .touch state => During history task.start (Reads codec id state)
  | .load id, .done (.state (some state)) =>
    if store.touches then Armed store codec history task.start id state
    else During history task.start (Reads codec id state)
  | .load id, .done (.state none) => task.clean = true → During history task.start (Absent id)
  | .load _, .done .error => task.clean = false
  | .load _, .get => True
  | .store _ state, .set bytes => codec.toVec state = some bytes
  | .store _ _, .done .done => True
  | .store _ _, .done .error => True
  | .delete _, .delete => True
  | .delete _, .done .done => True
  | .delete _, .done .error => True
  | _, _ => False

def begun : Pc S → Bool
  | .idle => false
  | _ => true

/-- Every call on the namespace is one of the store's. -/
def OwnWrites (tasks : Nat → Task S) : Event → Prop
  | .call (.set ns id bytes ttl) => ns = NS_TRANSPORT_SESSIONS →
    ttl = some store.ttl ∧ ∃ t state, (tasks t).request = .store id state ∧
      begun (tasks t).pc = true ∧ codec.toVec state = some bytes
  | .call (.touch ns _ ttl) => ns = NS_TRANSPORT_SESSIONS → ttl = store.ttl
  | _ => True

structure Inv (st : State S) : Prop where
  backend : st.backend = after st.history
  started : ∀ t, (st.tasks t).start ≤ st.history.length
  outcome : ∀ t, Outcome store codec st.history (st.tasks t)
  writes : ∀ event ∈ st.history, OwnWrites store codec st.tasks event

variable {store codec}

theorem During.mono {history : List Event} {start : Nat} {P : List Event → Prop}
    (h : During history start P) (events : List Event) : During (history ++ events) start P := by
  obtain ⟨before, rest, rfl, hstart, hP⟩ := h
  exact ⟨before, rest ++ events, List.append_assoc .., hstart, hP⟩

theorem During.now {history : List Event} {start : Nat} {P : List Event → Prop}
    (hstart : start ≤ history.length) (hP : P history) (events : List Event) :
    During (history ++ events) start P :=
  ⟨history, events, rfl, hstart, hP⟩

theorem Armed.mono {history : List Event} {start : Nat} {id : String} {state : S}
    (h : Armed store codec history start id state) (events : List Event) :
    Armed store codec (history ++ events) start id state := by
  obtain ⟨before, rest, rfl, hthere, hread⟩ := h
  exact ⟨before, rest ++ events, by rw [List.append_assoc, List.cons_append], hthere, hread⟩

/-- What was so at moments within a call stays so. -/
theorem Outcome.mono {history : List Event} {task : Task S}
    (h : Outcome store codec history task) (events : List Event) :
    Outcome store codec (history ++ events) task := by
  obtain ⟨request, pc, start, clean⟩ := task
  unfold Outcome at h ⊢
  split at h
  · trivial
  · exact h.mono events
  · split at h
    · next htouches =>
      simp only [htouches, if_true]
      exact h.mono events
    · next htouches =>
      simp only [htouches, Bool.false_eq_true, if_false]
      exact h.mono events
  · exact fun hclean => (h hclean).mono events
  all_goals exact h

theorem OwnWrites.mono {tasks tasks' : Nat → Task S} {event : Event}
    (h : OwnWrites store codec tasks event)
    (htasks : ∀ t, begun (tasks t).pc = true →
      (tasks' t).request = (tasks t).request ∧ begun (tasks' t).pc = true) :
    OwnWrites store codec tasks' event := by
  cases event with
  | elapse ms => trivial
  | call op =>
    cases op with
    | set ns id bytes ttl =>
      intro hns
      obtain ⟨httl, t, state, hrequest, hbegun, hbytes⟩ := h hns
      obtain ⟨hsame, hbegun'⟩ := htasks t hbegun
      exact ⟨httl, t, state, hsame.trans hrequest, hbegun', hbytes⟩
    | touch ns id ttl => exact h
    | _ => trivial

theorem begun_receive {pc : Pc S} (h : begun pc = true) (output : Output) :
    begun (receive codec pc output) = true := by
  unfold receive
  split
  · rfl
  · split <;> rfl
  all_goals first | rfl | exact h

/-- What a read finds was written by a `store`. -/
theorem Inv.written {st : State S} (h : Inv store codec st) {id : String} {bytes : List UInt8}
    {before : List Event} (hbefore : before <+: st.history)
    (hget : (after before).get NS_TRANSPORT_SESSIONS.name id = some bytes) :
    ∃ t state, (st.tasks t).request = .store id state ∧ begun (st.tasks t).pc = true ∧
      codec.toVec state = some bytes := by
  have hentry := ExpiringBackend.entry_of_get hget
  rcases ExpiringBackend.set_of_entry hentry with hempty | ⟨ttl, hmem⟩
  · cases hempty
  exact (h.writes _ (hbefore.subset hmem) rfl).2

theorem Inv.decodes {st : State S} (h : Inv store codec st) {id : String} {bytes : List UInt8}
    (hget : st.backend.get NS_TRANSPORT_SESSIONS.name id = some bytes) :
    ∃ state, codec.fromSlice bytes = some state := by
  rw [h.backend] at hget
  obtain ⟨t, state, -, -, hbytes⟩ := h.written (List.prefix_refl _) hget
  exact ⟨state, codec.roundTrip state bytes hbytes⟩

/-- A call of the backend that is not answered leaves the call unclean. -/
theorem serve_cases (backend : ExpiringBackend) {op : Op} (fate : Fate)
    (hop : supports store op = true) :
    ((serve store backend op fate).1 = [.call op] ∧
        (serve store backend op fate).2 = (backend.call op).2 ∧ answered fate = true) ∨
      ((serve store backend op fate).2 = .error ∧ answered fate = false) := by
  unfold serve
  rw [if_pos hop]
  cases fate with
  | answered => exact Or.inl ⟨rfl, rfl, rfl⟩
  | failed => exact Or.inr ⟨rfl, rfl⟩
  | lost => exact Or.inr ⟨rfl, rfl⟩

/-- The read of `load`. -/
theorem Inv.outcome_get {st : State S} (h : Inv store codec st) {id : String} {start : Nat}
    {clean : Bool} (hstart : start ≤ st.history.length) (fate : Fate) :
    let r := serve store st.backend (.get NS_TRANSPORT_SESSIONS id) fate
    Outcome store codec (st.history ++ r.1)
      ⟨.load id, receive codec .get r.2, start, clean && answered fate⟩ := by
  intro r
  rcases serve_cases st.backend fate
      (show supports store (.get NS_TRANSPORT_SESSIONS id) = true from rfl) with
    ⟨hevents, houtput, hanswered⟩ | ⟨houtput, hanswered⟩
  · show Outcome store codec (st.history ++ r.1) ⟨.load id, receive codec .get r.2, start, _⟩
    rw [show r.2 = .value (st.backend.get NS_TRANSPORT_SESSIONS.name id) from houtput]
    cases hget : st.backend.get NS_TRANSPORT_SESSIONS.name id with
    | none =>
      intro _
      rw [h.backend] at hget
      exact During.now hstart hget _
    | some bytes =>
      obtain ⟨state, hstate⟩ := h.decodes hget
      rw [h.backend] at hget
      have hread : Reads codec id state st.history := by
        unfold Reads
        rw [hget]
        exact hstate
      have hnext : receive codec .get (.value (some bytes)) = .touch state := by
        simp only [receive, hstate]
      rw [hnext]
      exact During.now hstart hread _
  · show Outcome store codec (st.history ++ r.1) ⟨.load id, receive codec .get r.2, start, _⟩
    rw [show r.2 = .error from houtput, hanswered, Bool.and_false]
    rfl

/-- The re-arming of `load`. -/
theorem Inv.outcome_touch {st : State S} (h : Inv store codec st) {id : String} {state : S}
    {start : Nat} {clean : Bool} (hstart : start ≤ st.history.length)
    (hread : During st.history start (Reads codec id state)) (fate : Fate) :
    let r := serve store st.backend (.touch NS_TRANSPORT_SESSIONS id store.ttl) fate
    Outcome store codec (st.history ++ r.1)
      ⟨.load id, receive codec (.touch state) r.2, start, clean && answered fate⟩ := by
  intro r
  show Outcome store codec (st.history ++ r.1)
    ⟨.load id, receive codec (.touch state) r.2, start, _⟩
  cases htouches : store.touches with
  | false =>
    have hr : r = ([], .touch .Unsupported) := by
      show serve store st.backend _ fate = _
      unfold serve supports
      simp only [htouches, Bool.false_eq_true, if_false]
    rw [hr]
    simp only [receive, Outcome, htouches, Bool.false_eq_true, if_false]
    exact hread.mono _
  | true =>
    rcases serve_cases st.backend fate
      (show supports store (.touch NS_TRANSPORT_SESSIONS id store.ttl) = true from htouches) with
      ⟨hevents, houtput, hanswered⟩ | ⟨houtput, hanswered⟩
    · rw [show r.1 = _ from hevents, show r.2 = _ from houtput, ExpiringBackend.touch_output]
      cases hget : st.backend.get NS_TRANSPORT_SESSIONS.name id with
      | none =>
        intro _
        rw [h.backend] at hget
        exact During.now hstart hget _
      | some bytes =>
        simp only [Option.isSome_some, if_true, receive, Outcome, htouches]
        refine ⟨st.history, [], rfl, fun habsent => ?_, hread⟩
        rw [h.backend] at hget
        rw [Absent, hget] at habsent
        cases habsent
    · rw [show r.2 = _ from houtput, hanswered, Bool.and_false]
      intro hclean
      cases hclean

/-- **One section** leaves what is known of its call. -/
theorem Inv.outcome_run {st : State S} (h : Inv store codec st) {t : Nat} {op : Op}
    (hop : backendOp store (st.tasks t).request.id (st.tasks t).pc = some op) (fate : Fate) :
    let r := serve store st.backend op fate
    Outcome store codec (st.history ++ r.1)
      { st.tasks t with
        pc := receive codec (st.tasks t).pc r.2
        clean := (st.tasks t).clean && answered fate } := by
  intro r
  have hout := h.outcome t
  have hstart := h.started t
  generalize st.tasks t = task at hop hout hstart ⊢
  obtain ⟨request, pc, start, clean⟩ := task
  cases pc with
  | idle => cases hop
  | done answer => cases hop
  | get =>
    injection hop with hop
    cases request with
    | load id =>
      subst hop
      exact h.outcome_get hstart fate
    | store id state => exact hout.elim
    | delete id => exact hout.elim
  | touch state =>
    injection hop with hop
    cases request with
    | load id =>
      subst hop
      exact h.outcome_touch hstart hout fate
    | store id state => exact hout.elim
    | delete id => exact hout.elim
  | set bytes =>
    cases request with
    | load id => exact hout.elim
    | store id state =>
      show Outcome store codec _ ⟨.store id state, receive codec (.set bytes) r.2, start, _⟩
      cases r.2 <;> trivial
    | delete id => exact hout.elim
  | delete =>
    cases request with
    | load id => exact hout.elim
    | store id state => exact hout.elim
    | delete id =>
      show Outcome store codec _ ⟨.delete id, receive codec .delete r.2, start, _⟩
      cases r.2 <;> trivial

/-- What a section does to the backend is the store's own. -/
theorem Inv.ownWrites_run {st : State S} (h : Inv store codec st) {t : Nat} {op : Op}
    (hop : backendOp store (st.tasks t).request.id (st.tasks t).pc = some op) :
    OwnWrites store codec st.tasks (.call op) := by
  have hout := h.outcome t
  cases hpc : (st.tasks t).pc with
  | idle =>
    rw [hpc] at hop
    cases hop
  | done answer =>
    rw [hpc] at hop
    cases hop
  | get =>
    rw [hpc] at hop
    injection hop with hop
    rw [← hop]
    trivial
  | delete =>
    rw [hpc] at hop
    injection hop with hop
    rw [← hop]
    trivial
  | touch state =>
    rw [hpc] at hop
    injection hop with hop
    rw [← hop]
    exact fun _ => rfl
  | set bytes =>
    rw [hpc] at hop
    injection hop with hop
    rw [← hop]
    cases hrequest : (st.tasks t).request with
    | store id state =>
      have hbytes : codec.toVec state = some bytes := by
        simp only [Outcome, hrequest, hpc] at hout
        exact hout
      exact fun _ => ⟨rfl, t, state, hrequest, by rw [hpc]; rfl, hbytes⟩
    | load id =>
      simp only [Outcome, hrequest, hpc] at hout
    | delete id =>
      simp only [Outcome, hrequest, hpc] at hout

theorem Inv.init : Inv store codec (init : State S) where
  backend := rfl
  started := fun _ => Nat.le_refl _
  outcome := fun _ => trivial
  writes := fun _ hmem => by cases hmem

/-- The backend after more has happened. -/
theorem run_after (history events : List Event) :
    (after history).run events = after (history ++ events) :=
  (ExpiringBackend.run_append _ history events).symm

/-- Something happens to the backend, and calls move on. -/
theorem Inv.happen {st st' : State S} (h : Inv store codec st) (events : List Event)
    (hbackend : st'.backend = st.backend.run events) (hhistory : st'.history = st.history ++ events)
    (hstarted : ∀ t, (st'.tasks t).start ≤ (st.history ++ events).length)
    (houtcome : ∀ t, Outcome store codec (st.history ++ events) (st'.tasks t))
    (htasks : ∀ t, begun (st.tasks t).pc = true →
      (st'.tasks t).request = (st.tasks t).request ∧ begun (st'.tasks t).pc = true)
    (hevents : ∀ event ∈ events, OwnWrites store codec st.tasks event) :
    Inv store codec st' := by
  refine ⟨?_, ?_, ?_, fun event hmem => ?_⟩
  · rw [hbackend, hhistory, h.backend, run_after]
  · rw [hhistory]
    exact hstarted
  · rw [hhistory]
    exact houtcome
  · rw [hhistory] at hmem
    rcases List.mem_append.mp hmem with hold | hnew
    · exact (h.writes event hold).mono htasks
    · exact (hevents event hnew).mono htasks

theorem outcome_begin (history : List Event) (request : Request S) (start : Nat) :
    Outcome store codec history ⟨request, begin codec request, start, true⟩ := by
  cases request with
  | load id => trivial
  | delete id => trivial
  | store id state =>
    simp only [begin]
    cases hbytes : codec.toVec state with
    | none => trivial
    | some bytes => exact hbytes

/-- **The step lemma.** -/
theorem Inv.step {st st' : State S} {label : Label S} (h : Inv store codec st)
    (hs : step store codec st label = some st') : Inv store codec st' := by
  have hmore : ∀ (events : List Event) t,
      (st.tasks t).start ≤ (st.history ++ events).length := by
    intro events t
    have hle := h.started t
    rw [List.length_append]
    omega
  cases label with
  | call t request =>
    simp only [TransportSessions.step] at hs
    split at hs
    · next hidle =>
      injection hs with hs
      subst hs
      refine h.happen [] rfl (List.append_nil _).symm ?_ ?_ (fun u hu => ?_)
        (fun event hmem => by cases hmem)
      · exact (forall_update_iff (P := fun _ (task : Task S) => task.start ≤ _)).mpr
          ⟨Nat.le_of_eq (by rw [List.append_nil]), fun u _ => hmore [] u⟩
      · exact (forall_update_iff (P := fun _ (task : Task S) => Outcome store codec _ task)).mpr
          ⟨outcome_begin _ request _, fun u _ => (h.outcome u).mono []⟩
      · have hne : u ≠ t := by
          intro heq
          rw [heq, hidle] at hu
          cases hu
        simp only [State.setTask, Function.update_of_ne hne]
        exact ⟨trivial, hu⟩
    · cases hs
  | run t fate =>
    obtain ⟨op, hop, rfl⟩ := Option.map_eq_some_iff.mp hs
    have hbegun : begun (st.tasks t).pc = true := by
      cases hpc : (st.tasks t).pc with
      | idle =>
        rw [hpc] at hop
        cases hop
      | _ => rfl
    refine h.happen _ rfl rfl ?_ ?_ (fun u hu => ?_) (fun event hmem => ?_)
    · exact (forall_update_iff (P := fun _ (task : Task S) => task.start ≤ _)).mpr
        ⟨hmore _ t, fun u _ => hmore _ u⟩
    · exact (forall_update_iff (P := fun _ (task : Task S) => Outcome store codec _ task)).mpr
        ⟨h.outcome_run hop fate, fun u _ => (h.outcome u).mono _⟩
    · by_cases hut : u = t
      · subst hut
        simp only [State.setTask, Function.update_self]
        exact ⟨trivial, begun_receive hbegun _⟩
      · simp only [State.setTask, State.happen, Function.update_of_ne hut]
        exact ⟨trivial, hu⟩
    · have hevent : event = .call op := by
        unfold serve at hmem
        split at hmem
        · cases fate with
          | failed => cases hmem
          | answered => exact List.mem_singleton.mp hmem
          | lost => exact List.mem_singleton.mp hmem
        · cases hmem
      rw [hevent]
      exact h.ownWrites_run hop
  | other op =>
    simp only [TransportSessions.step] at hs
    split at hs
    · cases hs
    · next hother =>
      injection hs with hs
      subst hs
      refine h.happen _ rfl rfl (hmore _) (fun u => (h.outcome u).mono _)
        (fun u hu => ⟨rfl, hu⟩) ?_
      intro event hmem
      rw [List.mem_singleton.mp hmem]
      cases op with
      | set ns key v ttl => exact fun hns => absurd hns hother
      | touch ns key ttl => exact fun hns => absurd hns hother
      | _ => trivial
  | elapse ms =>
    injection hs with hs
    subst hs
    refine h.happen _ rfl rfl (hmore _) (fun u => (h.outcome u).mono _)
      (fun u hu => ⟨rfl, hu⟩) ?_
    intro event hmem
    rw [List.mem_singleton.mp hmem]
    trivial

theorem inv_reach {st : State S} (hr : (system store codec).Reach (fun _ _ => True) init st) :
    Inv store codec st :=
  hr.invariant Inv.init fun _ _ _ h _ hs => h.step hs

end System

end McpFramework.TransportSessions
