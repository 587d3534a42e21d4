import McpFramework.Capability.Registry

/-!
# Capability — RegistryVersion

When the version of a registry is the hash of its content although mutations
run concurrently.

A mutation hashes what it reads of the three maps and stores the hash in a later
step: one that is overtaken in between stores the hash of what was there before.
No harm is done while another mutation is still to store its own; the last one
has to have read the maps as they are (`Orderly`).
-/

namespace McpFramework.RegistryProtocol

open Lib CapabilityRegistry

/-! ## The steps -/

/-- A recomputation has read the keys of the maps it names. -/
inductive Pc where
  | idle
  | mutate (mutation : Mutation)
  | readTools
  | readPrompts (tools : List String)
  | readResources (tools prompts : List String)
  | store (tools prompts resources : List String)
  | done

structure State where
  registry : CapabilityRegistry
  tasks : Nat → Pc

inductive Label where
  | call (t : Nat) (mutation : Mutation)
  | run (t : Nat)

def State.goto (st : State) (t : Nat) (pc : Pc) : State :=
  { st with tasks := Function.update st.tasks t pc }

section Sections

variable (hasher : List UInt8 → Nat)

def runSection (st : State) (t : Nat) : Option State :=
  let r := st.registry
  match st.tasks t with
  | .idle => none
  | .mutate mutation =>
    let (registry, changed) := r.mutate mutation
    some ({ st with registry := registry }.goto t (if changed then .readTools else .done))
  | .readTools => some (st.goto t (.readPrompts (sortedKeys r.tools)))
  | .readPrompts tools => some (st.goto t (.readResources tools (sortedKeys r.prompts)))
  | .readResources tools prompts =>
    some (st.goto t (.store tools prompts (sortedKeys r.resources)))
  | .store tools prompts resources =>
    some ({ st with registry := { r with version := hashKeys hasher tools prompts resources } }.goto
      t .done)
  | .done => none

def step (st : State) : Label → Option State
  | .call t mutation =>
    match st.tasks t with
    | .idle => some (st.goto t (.mutate mutation))
    | _ => none
  | .run t => runSection hasher st t

def system : System State Label := ⟨step hasher⟩

def init : State := { registry := CapabilityRegistry.new hasher, tasks := fun _ => .idle }

end Sections

def Pc.completed : Pc → Bool
  | .idle => true
  | .done => true
  | _ => false

/-- All operations have completed. -/
def Quiet (st : State) : Prop := ∀ t, (st.tasks t).completed = true

/-- A mutation that has changed a map and not stored a version yet. -/
def Pc.recomputing : Pc → Bool
  | .readTools => true
  | .readPrompts _ => true
  | .readResources _ _ => true
  | .store _ _ _ => true
  | _ => false

/-- The keys a recomputation has read are those that are there. -/
def UpToDate (st : State) (tools prompts resources : List String) : Prop :=
  tools = sortedKeys st.registry.tools ∧ prompts = sortedKeys st.registry.prompts ∧
    resources = sortedKeys st.registry.resources

/-- A mutation that stores its hash has read the maps as they are, unless another
is still to store its own. -/
def Orderly (st : State) : Label → Prop
  | .run t => ∀ tools prompts resources, st.tasks t = .store tools prompts resources →
      UpToDate st tools prompts resources ∨ ∃ u, u ≠ t ∧ (st.tasks u).recomputing = true
  | _ => True

/-! ## The version -/

section Version

variable {hasher : List UInt8 → Nat} {st st' : State} {t : Nat} {pc : Pc}

/-- The version is the hash of the content, unless one is still to be stored. -/
def Current (hasher : List UInt8 → Nat) (st : State) : Prop :=
  (∃ u, (st.tasks u).recomputing = true) ∨ st.registry.version = st.registry.contentHash hasher

/-- A task moves and is or stays at recomputing. -/
theorem Current.of_recomputing (htasks : st'.tasks = Function.update st.tasks t pc)
    (hpc : pc.recomputing = true) : Current hasher st' := by
  refine .inl ⟨t, ?_⟩
  rw [htasks, Function.update_self]
  exact hpc

/-- A task that is not recomputing moves and leaves the registry as it is. -/
theorem Current.move (h : Current hasher st) (htasks : st'.tasks = Function.update st.tasks t pc)
    (hpc : (st.tasks t).recomputing = false) (hregistry : st'.registry = st.registry) :
    Current hasher st' := by
  rcases h with ⟨u, hu⟩ | h
  · have hne : u ≠ t := by
      rintro rfl
      rw [hpc] at hu
      cases hu
    refine .inl ⟨u, ?_⟩
    rw [htasks, Function.update_of_ne hne]
    exact hu
  · rw [← hregistry] at h
    exact .inr h

/-- Removing what is not there changes nothing. -/
theorem mutate_of_unchanged {r : CapabilityRegistry} {mutation : Mutation}
    (h : (r.mutate mutation).2 = false) : (r.mutate mutation).1 = r := by
  cases mutation with
  | addTool tool => cases h
  | addPrompt prompt => cases h
  | addResource resource => cases h
  | removeTool name => simp only [mutate, HashMap.remove_of_absent _ h]
  | removePrompt name => simp only [mutate, HashMap.remove_of_absent _ h]
  | removeResource uri => simp only [mutate, HashMap.remove_of_absent _ h]

theorem Current.run (h : Current hasher st) (hg : Orderly st (.run t))
    (hr : runSection hasher st t = some st') : Current hasher st' := by
  cases hpc : st.tasks t with
  | idle => simp [runSection, hpc] at hr
  | done => simp [runSection, hpc] at hr
  | mutate mutation =>
    simp only [runSection, hpc, Option.some.injEq] at hr
    subst hr
    cases hchanged : (st.registry.mutate mutation).2 with
    | true => exact .of_recomputing (t := t) rfl rfl
    | false => exact h.move rfl (by rw [hpc]; rfl) (mutate_of_unchanged hchanged)
  | readTools =>
    simp only [runSection, hpc, Option.some.injEq] at hr
    subst hr
    exact .of_recomputing rfl rfl
  | readPrompts tools =>
    simp only [runSection, hpc, Option.some.injEq] at hr
    subst hr
    exact .of_recomputing rfl rfl
  | readResources tools prompts =>
    simp only [runSection, hpc, Option.some.injEq] at hr
    subst hr
    exact .of_recomputing rfl rfl
  | store tools prompts resources =>
    simp only [runSection, hpc, Option.some.injEq] at hr
    subst hr
    rcases hg tools prompts resources hpc with ⟨rfl, rfl, rfl⟩ | ⟨u, hne, hu⟩
    · exact .inr rfl
    · refine .inl ⟨u, ?_⟩
      simp only [State.goto]
      rw [Function.update_of_ne hne]
      exact hu

theorem Current.step {l : Label} (h : Current hasher st) (hg : Orderly st l)
    (hs : step hasher st l = some st') : Current hasher st' := by
  cases l with
  | call t mutation =>
    simp only [RegistryProtocol.step] at hs
    split at hs <;> cases hs
    rename_i hpc
    exact h.move rfl (by rw [hpc]; rfl) rfl
  | run t => exact h.run hg hs

end Version

/-- **Orderly mutations keep the version.** In every run in which the last
mutation to store its hash has read the maps as they are, when all operations
have completed the version is the hash of what is registered, and a session is
notified unless that hash is the version it saw last. -/
theorem version_of_orderly (hasher : List UInt8 → Nat) (st : State)
    (hr : (system hasher).Reach Orderly (init hasher) st) (hquiet : Quiet st) :
    st.registry.version = st.registry.contentHash hasher ∧
      ∀ (sessionVersions : HashMap String Nat) (sessionId : String),
        (st.registry.notifyIfChanged sessionVersions sessionId).2 = true ↔
          sessionVersions.get? sessionId ≠ some (st.registry.contentHash hasher) := by
  have hcurrent : Current hasher st := hr.invariant
    (.inr (contentHash_new hasher).symm) fun _ _ _ h hg hs => h.step hg hs
  have hversion : st.registry.version = st.registry.contentHash hasher := by
    rcases hcurrent with ⟨u, hu⟩ | h
    · have hq := hquiet u
      cases hpc : st.tasks u <;> simp [hpc, Pc.recomputing, Pc.completed] at hu hq
    · exact h
  refine ⟨hversion, fun sessionVersions sessionId => ?_⟩
  rw [← hversion]
  cases hlast : sessionVersions.get? sessionId with
  | none => simp [notifyIfChanged, hlast]
  | some last => simp [notifyIfChanged, hlast]

/-! ## Two mutations -/

/-- A hash of its own for every sequence of bytes. -/
def positional (bytes : List UInt8) : Nat := bytes.foldl (fun h b => 257 * h + b.toNat + 1) 0

def toolX : Mutation := .addTool ⟨"x", .null, none, .null⟩

def promptP : Mutation := .addPrompt ⟨"p", .null⟩

/-- The recomputation of task 0 is overtaken by all of task 1 and stores its hash
last. -/
def overtaken : List Label :=
  [.call 0 toolX, .call 1 promptP, .run 0, .run 0, .run 0, .run 0,
    .run 1, .run 1, .run 1, .run 1, .run 1, .run 0]

/-- Task 0 is overtaken by the change that task 1 makes, and stores its hash
first. -/
def outdatedFirst : List Label :=
  [.call 0 toolX, .call 1 promptP, .run 0, .run 0, .run 0, .run 0,
    .run 1, .run 0, .run 1, .run 1, .run 1, .run 1]

def Label.task : Label → Nat
  | .call t _ => t
  | .run t => t

/-- A schedule of the tasks below `n` leaves the others idle. -/
theorem idle_of_run {G : State → Label → Prop} [∀ st l, Decidable (G st l)]
    {hasher : List UInt8 → Nat} {st : State} {w : List Label} {n : Nat}
    (h : (system hasher).run G (init hasher) w = some st) (hw : ∀ l ∈ w, l.task < n) {t : Nat}
    (ht : n ≤ t) : st.tasks t = .idle := by
  refine System.run_invariant (I := fun s => s.tasks t = .idle) h rfl fun l hl s s' hs hstep => ?_
  have hne : t ≠ l.task := fun heq => absurd (hw l hl) (by omega)
  have hgoto : ∀ (s : State) pc, (s.goto l.task pc).tasks t = s.tasks t := fun s pc => by
    simp [State.goto, hne]
  cases l with
  | call u mutation =>
    simp only [system, step] at hstep
    split at hstep <;> cases hstep
    exact (hgoto s _).trans hs
  | run u =>
    simp only [system, step, runSection] at hstep
    split at hstep <;> cases hstep <;> exact (hgoto _ _).trans hs

/-- What a schedule of the tasks below `n` leads to, if all of them complete. -/
theorem exists_quiet_of_run {G : State → Label → Prop} [∀ st l, Decidable (G st l)]
    (hasher : List UInt8 → Nat) {w : List Label} {p : State → Bool} (n : Nat)
    (h : ((system hasher).run G (init hasher) w).any (fun st =>
      p st && (List.range n).all fun t => (st.tasks t).completed) = true)
    (hw : ∀ l ∈ w, l.task < n) :
    ∃ st, (system hasher).Reach G (init hasher) st ∧ Quiet st ∧ p st = true := by
  obtain ⟨st, hrun, hp⟩ := (Option.any_eq_true _ _).mp h
  obtain ⟨hp, hall⟩ := Bool.and_eq_true_iff.mp hp
  refine ⟨st, System.reach_of_run hrun, fun t => ?_, hp⟩
  by_cases ht : t < n
  · exact List.all_eq_true.mp hall t (List.mem_range.mpr ht)
  · rw [idle_of_run hrun hw (Nat.le_of_not_lt ht)]
    rfl

/-- `Orderly` as a test, for schedules of the tasks below `n`. -/
def orderlyBelow (n : Nat) (st : State) : Label → Bool
  | .run t =>
    match st.tasks t with
    | .store tools prompts resources =>
      decide (tools = sortedKeys st.registry.tools) &&
          decide (prompts = sortedKeys st.registry.prompts) &&
          decide (resources = sortedKeys st.registry.resources) ||
        (List.range n).any fun u => decide (u ≠ t) && (st.tasks u).recomputing
    | _ => true
  | _ => true

theorem orderly_of_below {n : Nat} {st : State} {l : Label} (h : orderlyBelow n st l = true) :
    Orderly st l := by
  cases l with
  | call t mutation => trivial
  | run t =>
    intro tools prompts resources hpc
    simp only [orderlyBelow, hpc, Bool.or_eq_true, Bool.and_eq_true, decide_eq_true_eq,
      List.any_eq_true] at h
    rcases h with ⟨⟨htools, hprompts⟩, hresources⟩ | ⟨u, -, hne, hu⟩
    · exact .inl ⟨htools, hprompts, hresources⟩
    · exact .inr ⟨u, hne, hu⟩

theorem version_when_outdated_first :
    ∃ st : State, st.registry.version = st.registry.contentHash positional ∧
      st.registry.version = positional [0x78, 0xff, 0x70, 0xff] := by
  obtain ⟨st, hr, hquiet, hp⟩ := exists_quiet_of_run
    (G := fun st l => orderlyBelow 2 st l = true) (w := outdatedFirst)
    (p := fun st => decide (st.registry.version = positional [0x78, 0xff, 0x70, 0xff]))
    positional 2 (by decide +kernel) (by decide)
  have hversion := version_of_orderly positional st (hr.mono fun _ _ => orderly_of_below) hquiet
  exact ⟨st, hversion.1, of_decide_eq_true hp⟩

/-- The version is that of a registry without the prompt. -/
theorem overtaken_mutation_stores_last :
    ¬ ∀ (hasher : List UInt8 → Nat) (st : State),
      (system hasher).Reach (fun _ _ => True) (init hasher) st → Quiet st →
        st.registry.version = st.registry.contentHash hasher ∧
          ∀ (sessionVersions : HashMap String Nat) (sessionId : String),
            (st.registry.notifyIfChanged sessionVersions sessionId).2 = true ↔
              sessionVersions.get? sessionId ≠ some (st.registry.contentHash hasher) := by
  intro h
  obtain ⟨st, hr, hquiet, hp⟩ := exists_quiet_of_run (G := fun _ _ => True) (w := overtaken)
    (p := fun st => decide (st.registry.version ≠ st.registry.contentHash positional))
    positional 2 (by decide +kernel) (by decide)
  exact of_decide_eq_true hp (h positional st hr hquiet).1

end McpFramework.RegistryProtocol
