import McpFramework.Capability.Peers
import McpFramework.Capability.RegistryVersion

/-!
# Capability — ListChanges

What a connected client learns of the registry (`capability/registry.rs`,
`capability/handler.rs`). A mutation changes a map, stores the version, and then
tells every peer of it under the write lock of the list of peers; a client asks
for a list again when it is told. All of these interleave, and a mutation may be
dropped where it waits.

The steps of a mutation up to its version are those of `RegistryProtocol`.
-/

namespace McpFramework.ListChanges

open Lib CapabilityRegistry

/-! ## Lists -/

/-- Whom a mutation is told to. -/
def notifyKind : Mutation → NotifyKind
  | .addTool _ => .tools
  | .removeTool _ => .tools
  | .addPrompt _ => .prompts
  | .removePrompt _ => .prompts
  | .addResource _ => .resources
  | .removeResource _ => .resources

/-- The answer to a list request, as far as it comes from the registry. -/
inductive Listing where
  | tools (tools : List Tool)
  | prompts (prompts : List Prompt)
  | resources (resources : List Resource)

def listing (r : CapabilityRegistry) : NotifyKind → Listing
  | .tools => .tools r.tools.values
  | .prompts => .prompts r.prompts.values
  | .resources => .resources r.resources.values

/-! ## The steps -/

/-- A connection of a client, and what it makes of what it is sent. -/
structure Client where
  registered : Bool
  transportClosed : Bool
  /-- Sending to it has failed. -/
  failed : Bool
  /-- It has been told of a change and has not asked since. -/
  told : NotifyKind → Bool
  /-- A list request is under way. -/
  asking : NotifyKind → Bool
  listed : NotifyKind → Option Listing

/-- The `notify_peers` that holds the lock: who is still to be sent to, and the
positions to remove. -/
structure Loop where
  task : Nat
  kind : NotifyKind
  position : Nat
  todo : List Nat
  toRemove : List Nat

/-- `changed` is what a task has changed and not told everyone. -/
structure State where
  registry : RegistryProtocol.State
  changed : Nat → Option NotifyKind
  peers : List Nat
  loop : Option Loop
  clients : Nat → Client

inductive Label where
  /-- A mutation is called, or runs up to its version. -/
  | mutation (l : RegistryProtocol.Label)
  /-- Task `t` takes the lock of the peers. -/
  | notifyPeers (t : Nat)
  /-- The loop goes on to its next peer; sending to it succeeds, or does not. -/
  | notifyPeer (sent : Bool)
  /-- The loop is over. -/
  | removeDead
  /-- The future of task `t` is dropped where it waits. -/
  | drop (t : Nat)
  /-- Client `c` connects, and its peer is registered. -/
  | connect (c : Nat)
  /-- The connected peers are asked for. -/
  | peers
  | close (c : Nat)
  | ask (c : Nat) (kind : NotifyKind)
  | serve (c : Nat) (kind : NotifyKind)

section Sections

variable (hasher : List UInt8 → Nat)

def State.setClient (st : State) (c : Nat) (client : Client) : State :=
  { st with clients := Function.update st.clients c client }

/-- What a section of a mutation leaves to be told. -/
def changes (st : State) : RegistryProtocol.Label → Nat → Option NotifyKind
  | .call _ _ => st.changed
  | .run t =>
    match st.registry.tasks t with
    | .mutate mutation =>
      if (st.registry.registry.mutate mutation).2 then
        Function.update st.changed t (some (notifyKind mutation))
      else st.changed
    | _ => st.changed

/-- One turn of the loop of `notify_peers`. -/
def visit (st : State) (sent : Bool) : Option State :=
  match st.loop with
  | some l =>
    match l.todo with
    | [] => none
    | c :: todo =>
      let client := st.clients c
      let next := { l with position := l.position + 1, todo := todo }
      let dead := { next with toRemove := l.toRemove ++ [l.position] }
      if client.transportClosed then some { st with loop := some dead }
      else if sent then
        some ({ st with loop := some next }.setClient c
          { client with told := Function.update client.told l.kind true })
      else some ({ st with loop := some dead }.setClient c { client with failed := true })
  | none => none

def removeDead (st : State) : Option State :=
  match st.loop with
  | some l =>
    if l.todo = [] then
      (l.toRemove.reverse.foldlM swapRemove st.peers).map fun peers =>
        { st with
          peers := peers, loop := none, changed := Function.update st.changed l.task none }
    else none
  | none => none

def step (st : State) : Label → Option State
  | .mutation l =>
    (RegistryProtocol.step hasher st.registry l).map fun registry =>
      { st with registry := registry, changed := changes st l }
  | .notifyPeers t =>
    match st.registry.tasks t, st.changed t, st.loop with
    | .done, some kind, none => some { st with loop := some ⟨t, kind, 0, st.peers, []⟩ }
    | _, _, _ => none
  | .notifyPeer sent => visit st sent
  | .removeDead => removeDead st
  | .drop t =>
    some { st with
      registry := st.registry.goto t .done
      changed := Function.update st.changed t none
      loop := st.loop.filter fun l => l.task != t }
  | .connect c =>
    if st.loop.isNone && !(st.clients c).registered then
      some ({ st with peers := st.peers ++ [c] }.setClient c
        { st.clients c with registered := true })
    else none
  | .peers =>
    if st.loop.isNone then
      some { st with peers := st.peers.filter fun c => !(st.clients c).transportClosed }
    else none
  | .close c => some (st.setClient c { st.clients c with transportClosed := true })
  | .ask c kind =>
    let client := st.clients c
    if client.registered && !client.asking kind then
      some (st.setClient c
        { client with
          told := Function.update client.told kind false
          asking := Function.update client.asking kind true })
    else none
  | .serve c kind =>
    let client := st.clients c
    if client.asking kind then
      some (st.setClient c
        { client with
          asking := Function.update client.asking kind false
          listed := Function.update client.listed kind
            (some (listing st.registry.registry kind)) })
    else none

def system : System State Label := ⟨step hasher⟩

def Client.new : Client :=
  { registered := false, transportClosed := false, failed := false, told := fun _ => false
    asking := fun _ => false, listed := fun _ => none }

def init : State :=
  { registry := RegistryProtocol.init hasher, changed := fun _ => none, peers := [], loop := none
    clients := fun _ => .new }

end Sections

/-- No mutation is dropped that has changed a map. -/
def Attended (st : State) : Label → Prop
  | .drop t => st.changed t = none
  | _ => True

instance (st : State) (l : Label) : Decidable (Attended st l) :=
  match l with
  | .drop t => inferInstanceAs (Decidable (st.changed t = none))
  | .mutation _ => isTrue trivial
  | .notifyPeers _ => isTrue trivial
  | .notifyPeer _ => isTrue trivial
  | .removeDead => isTrue trivial
  | .connect _ => isTrue trivial
  | .peers => isTrue trivial
  | .close _ => isTrue trivial
  | .ask _ _ => isTrue trivial
  | .serve _ _ => isTrue trivial

/-! ## Following -/

/-- Connected, and sending to it has never failed. -/
def Client.live (client : Client) : Bool :=
  client.registered && !client.transportClosed && !client.failed

/-- Some task is still to tell client `c` of a change. -/
def Owed (st : State) (c : Nat) (kind : NotifyKind) : Prop :=
  ∃ t, st.changed t = some kind ∧ ∀ l, st.loop = some l → l.task = t → c ∈ l.todo

/-- What a client holds is what is registered, or it is going to ask again, or to be
told to. -/
def Client.Follows (client : Client) (kind : NotifyKind) (registered : Listing) (owed : Prop) :
    Prop :=
  client.listed kind = none ∨ client.listed kind = some registered ∨ client.told kind = true ∨
    client.asking kind = true ∨ owed

def Follows (st : State) (c : Nat) (kind : NotifyKind) : Prop :=
  (st.clients c).Follows kind (listing st.registry.registry kind) (Owed st c kind)

/-- A task that has run the section that changes a map. -/
def begun : RegistryProtocol.Pc → Bool
  | .idle => false
  | .mutate _ => false
  | _ => true

/-- The loop that holds the lock has come as far as its position, and collected
nobody that is live. -/
structure LoopSound (st : State) (l : Loop) : Prop where
  changed : st.changed l.task = some l.kind
  todo : l.todo = st.peers.drop l.position
  ascending : l.toRemove.Pairwise (· < ·)
  before : ∀ i ∈ l.toRemove, i < l.position
  dead : ∀ i ∈ l.toRemove, ∃ c, st.peers[i]? = some c ∧ (st.clients c).live = false

structure Inv (st : State) : Prop where
  new : ∀ c, (st.clients c).registered = false → ∀ kind,
    (st.clients c).listed kind = none ∧ (st.clients c).asking kind = false
  peers : ∀ c, (st.clients c).live = true → c ∈ st.peers
  started : ∀ t, begun (st.registry.tasks t) = false → st.changed t = none
  loop : ∀ l, st.loop = some l → LoopSound st l
  follows : ∀ c kind, (st.clients c).live = true → Follows st c kind

section Steps

variable {hasher : List UInt8 → Nat} {st st' : State} {c t : Nat} {kind : NotifyKind}
  {client : Client} {l : Loop}

theorem Inv.init : Inv (init hasher) where
  new := fun _ _ _ => ⟨rfl, rfl⟩
  peers := fun _ h => (by cases h)
  started := fun _ _ => rfl
  loop := fun _ h => (by cases h)
  follows := fun _ _ h => (by cases h)

/-- What a client does not notice of a step. -/
theorem Follows.frame (h : Follows st c kind) (hclient : st'.clients c = st.clients c)
    (hlisting : listing st'.registry.registry kind = listing st.registry.registry kind)
    (howed : Owed st c kind → Owed st' c kind) : Follows st' c kind := by
  rw [Follows, Client.Follows, hclient, hlisting]
  exact h.imp_right (Or.imp_right (Or.imp_right (Or.imp_right howed)))

/-! ### Clients -/

@[simp] theorem setClient_self (st : State) (c : Nat) (client : Client) :
    (st.setClient c client).clients c = client := Function.update_self ..

theorem setClient_of_ne {u : Nat} (hu : u ≠ c) :
    (st.setClient c client).clients u = st.clients u := Function.update_of_ne hu _ _

/-- One client changes; it comes to live only where no loop holds the peers. -/
theorem Inv.setClient (h : Inv st)
    (hlive : client.live = true → c ∈ st.peers ∧ ((st.clients c).live = true ∨ st.loop = none))
    (hnew : client.registered = false → ∀ kind,
      client.listed kind = none ∧ client.asking kind = false)
    (hfollows : ∀ kind, client.live = true →
      client.Follows kind (listing st.registry.registry kind) (Owed st c kind)) :
    Inv (st.setClient c client) := by
  refine ⟨fun u hu => ?_, fun u hu => ?_, h.started, fun l hl => ?_, fun u kind hu => ?_⟩
  · by_cases huc : u = c
    · subst huc
      rw [setClient_self] at hu ⊢
      exact hnew hu
    · rw [setClient_of_ne huc] at hu ⊢
      exact h.new u hu
  · by_cases huc : u = c
    · subst huc
      rw [setClient_self] at hu
      exact (hlive hu).1
    · rw [setClient_of_ne huc] at hu
      exact h.peers u hu
  · have hsome : st.loop = some l := hl
    have hsound := h.loop l hsome
    refine { hsound with dead := fun i hi => ?_ }
    obtain ⟨u, hget, hdead⟩ := hsound.dead i hi
    refine ⟨u, hget, ?_⟩
    by_cases huc : u = c
    · subst huc
      rw [setClient_self, Bool.eq_false_iff]
      intro hu
      rcases (hlive hu).2 with hlive | hnone
      · rw [hdead] at hlive
        cases hlive
      · rw [hsome] at hnone
        cases hnone
    · rwa [setClient_of_ne huc]
  · by_cases huc : u = c
    · subst huc
      rw [setClient_self] at hu
      rw [Follows, setClient_self]
      exact hfollows kind hu
    · rw [setClient_of_ne huc] at hu
      exact (h.follows u kind hu).frame (setClient_of_ne huc) rfl fun howed => howed

/-- One client changes that is as live as it was. -/
theorem Inv.setSame (h : Inv st) (hlive : client.live = (st.clients c).live)
    (hnew : client.registered = false → ∀ kind,
      client.listed kind = none ∧ client.asking kind = false)
    (hfollows : ∀ kind, (st.clients c).live = true →
      client.Follows kind (listing st.registry.registry kind) (Owed st c kind)) :
    Inv (st.setClient c client) := by
  refine h.setClient (fun hl => ?_) hnew fun kind hl => hfollows kind (hlive ▸ hl)
  rw [hlive] at hl
  exact ⟨h.peers c hl, Or.inl hl⟩

/-- One client is lost. -/
theorem Inv.lose (h : Inv st) (hdead : client.live = false)
    (hnew : client.registered = false → ∀ kind,
      client.listed kind = none ∧ client.asking kind = false) :
    Inv (st.setClient c client) := by
  refine h.setClient (fun hlive => ?_) hnew fun kind hlive => ?_
  · rw [hdead] at hlive
    cases hlive
  · rw [hdead] at hlive
    cases hlive

theorem Inv.close (h : Inv st) :
    Inv (st.setClient c { st.clients c with transportClosed := true }) :=
  h.lose (by simp [Client.live]) (h.new c)

theorem Inv.fail (h : Inv st) : Inv (st.setClient c { st.clients c with failed := true }) :=
  h.lose (by simp [Client.live]) (h.new c)

/-- What is set at one kind is as it was at the others. -/
theorem update_or {β : Type} (f : NotifyKind → β) (kind : NotifyKind) (b : β) (k : NotifyKind) :
    Function.update f kind b k = b ∧ k = kind ∨
      Function.update f kind b k = f k ∧ k ≠ kind := by
  by_cases hk : k = kind
  · subst hk
    exact Or.inl ⟨Function.update_self .., rfl⟩
  · exact Or.inr ⟨Function.update_of_ne hk _ _, hk⟩

theorem Inv.tell (h : Inv st) : Inv (st.setClient c
    { st.clients c with told := Function.update (st.clients c).told kind true }) := by
  refine h.setSame rfl (h.new c) fun k hlive => ?_
  have hfollows := h.follows c k hlive
  rw [Client.Follows]
  rcases update_or (st.clients c).told kind true k with
    ⟨htold, -⟩ | ⟨hsame, -⟩
  · exact Or.inr (Or.inr (Or.inl htold))
  · dsimp only
    rw [hsame]
    exact hfollows

theorem Inv.ask (h : Inv st) (hregistered : (st.clients c).registered = true) :
    Inv (st.setClient c
      { st.clients c with
        told := Function.update (st.clients c).told kind false
        asking := Function.update (st.clients c).asking kind true }) := by
  refine h.setSame rfl (fun hnot => ?_) fun k hlive => ?_
  · have hnot : (st.clients c).registered = false := hnot
    rw [hregistered] at hnot
    cases hnot
  have hfollows := h.follows c k hlive
  rw [Client.Follows]
  rcases update_or (st.clients c).asking kind true k with
    ⟨hasking, -⟩ | ⟨hsame, hne⟩
  · exact Or.inr (Or.inr (Or.inr (Or.inl hasking)))
  · dsimp only
    rw [hsame, Function.update_of_ne hne]
    exact hfollows

theorem Inv.serve (h : Inv st) (hasking : (st.clients c).asking kind = true) :
    Inv (st.setClient c
      { st.clients c with
        asking := Function.update (st.clients c).asking kind false
        listed := Function.update (st.clients c).listed kind
          (some (listing st.registry.registry kind)) }) := by
  refine h.setSame rfl (fun hnot => ?_) fun k hlive => ?_
  · rw [(h.new c hnot kind).2] at hasking
    cases hasking
  have hfollows := h.follows c k hlive
  rw [Client.Follows]
  rcases update_or (st.clients c).listed kind (some (listing st.registry.registry kind)) k with
    ⟨hlisted, rfl⟩ | ⟨hsame, hne⟩
  · exact Or.inr (Or.inl hlisted)
  · dsimp only
    rw [hsame, Function.update_of_ne hne]
    exact hfollows

/-! ### The list of peers -/

theorem Inv.connect (h : Inv st) (hloop : st.loop = none)
    (hregistered : (st.clients c).registered = false) :
    Inv ({ st with peers := st.peers ++ [c] }.setClient c
      { st.clients c with registered := true }) := by
  have hpeers : Inv { st with peers := st.peers ++ [c] } := by
    refine ⟨h.new, fun u hu => List.mem_append_left _ (h.peers u hu), h.started, fun l hl => ?_,
      fun u kind hu => (h.follows u kind hu).frame rfl rfl fun howed => howed⟩
    have hl : st.loop = some l := hl
    rw [hloop] at hl
    cases hl
  refine hpeers.setClient (fun _ => ⟨?_, Or.inr hloop⟩) (fun hnot => (by cases hnot)) ?_
  · exact List.mem_append_right _ (List.mem_singleton_self c)
  · exact fun kind _ => Or.inl (h.new c hregistered kind).1

theorem Inv.prune (h : Inv st) (hloop : st.loop = none) :
    Inv { st with peers := st.peers.filter fun c => !(st.clients c).transportClosed } := by
  refine ⟨h.new, fun c hlive => List.mem_filter.mpr ⟨h.peers c hlive, ?_⟩, h.started,
    fun l hl => ?_, h.follows⟩
  · have hlive : (st.clients c).live = true := hlive
    simp only [Client.live, Bool.and_eq_true] at hlive
    exact hlive.1.2
  · have hl : st.loop = some l := hl
    rw [hloop] at hl
    cases hl

/-! ### Announcements -/

theorem Inv.startLoop (h : Inv st) (hchanged : st.changed t = some kind) :
    Inv { st with loop := some ⟨t, kind, 0, st.peers, []⟩ } := by
  refine ⟨h.new, h.peers, h.started, fun l hl => ?_, fun c k hlive => ?_⟩
  · cases hl
    exact ⟨hchanged, rfl, .nil, fun _ hi => (by cases hi), fun _ hi => (by cases hi)⟩
  · refine (h.follows c k hlive).frame rfl rfl ?_
    rintro ⟨u, hu, -⟩
    refine ⟨u, hu, fun l hl _ => ?_⟩
    cases hl
    exact h.peers c hlive

/-- The loop goes on past a peer that is told, or that is dead and collected. -/
theorem Inv.advance (h : Inv st) (hl : st.loop = some l) {todo : List Nat}
    (htodo : l.todo = c :: todo) (extra : List Nat)
    (hextra : extra = [] ∨ extra = [l.position] ∧ (st.clients c).live = false)
    (htold : (st.clients c).live = true → (st.clients c).told l.kind = true) :
    Inv { st with
      loop := some { l with
        position := l.position + 1, todo := todo, toRemove := l.toRemove ++ extra } } := by
  have hsound := h.loop l hl
  have hdrop : st.peers.drop l.position = c :: todo := by rw [← hsound.todo, htodo]
  have hget : st.peers[l.position]? = some c := by
    rw [← List.head?_drop, hdrop]
    rfl
  have hmem : ∀ i ∈ l.toRemove ++ extra,
      i ∈ l.toRemove ∨ i = l.position ∧ (st.clients c).live = false := by
    intro i hi
    refine (List.mem_append.mp hi).imp_right fun hi => ?_
    rcases hextra with rfl | ⟨rfl, hdead⟩
    · cases hi
    · exact ⟨List.mem_singleton.mp hi, hdead⟩
  refine ⟨h.new, h.peers, h.started, fun l' hl' => ?_, fun u k hlive => ?_⟩
  · cases hl'
    refine ⟨hsound.changed, ?_, ?_, fun i hi => ?_, fun i hi => ?_⟩
    · show todo = st.peers.drop (l.position + 1)
      rw [← List.tail_drop, hdrop, List.tail_cons]
    · refine List.pairwise_append.mpr ⟨hsound.ascending, ?_, fun i hi j hj => ?_⟩
      · rcases hextra with rfl | ⟨rfl, -⟩
        · exact .nil
        · exact List.pairwise_singleton _ _
      · rcases hextra with rfl | ⟨rfl, -⟩
        · cases hj
        · rw [List.mem_singleton.mp hj]
          exact hsound.before i hi
    · rcases hmem i hi with hi | ⟨rfl, -⟩
      · exact Nat.lt_succ_of_lt (hsound.before i hi)
      · exact Nat.lt_succ_self _
    · rcases hmem i hi with hi | ⟨rfl, hdead⟩
      · exact hsound.dead i hi
      · exact ⟨c, hget, hdead⟩
  · have hfollows := h.follows u k hlive
    -- only the peer that the loop has just passed could lose anything
    by_cases hpassed : u = c ∧ k = l.kind
    · obtain ⟨rfl, rfl⟩ := hpassed
      exact Or.inr (Or.inr (Or.inl (htold hlive)))
    · refine hfollows.frame rfl rfl ?_
      rintro ⟨v, hv, howed⟩
      refine ⟨v, hv, fun l' hl' htask => ?_⟩
      cases hl'
      have hin := howed l hl htask
      rw [htodo] at hin
      rcases List.mem_cons.mp hin with rfl | hin
      · have hkind : st.changed v = some l.kind := by
          rw [← (show l.task = v from htask)]
          exact hsound.changed
        rw [hv] at hkind
        exact absurd ⟨rfl, Option.some.inj hkind⟩ hpassed
      · exact hin

theorem Inv.visit (h : Inv st) {sent : Bool} (hs : visit st sent = some st') : Inv st' := by
  rw [ListChanges.visit] at hs
  split at hs
  · next l hl =>
    split at hs
    · cases hs
    · next c todo htodo =>
      dsimp only at hs
      split at hs
      · next hclosed =>
        cases hs
        have hdead : (st.clients c).live = false := by simp [Client.live, hclosed]
        refine h.advance hl htodo _ (Or.inr ⟨rfl, hdead⟩) fun hlive => ?_
        rw [hdead] at hlive
        cases hlive
      · split at hs <;> cases hs
        · have htold : Inv (st.setClient c
              { st.clients c with told := Function.update (st.clients c).told l.kind true }) :=
            h.tell
          have hnext := htold.advance hl htodo [] (Or.inl rfl) fun _ => by
            rw [setClient_self]
            exact Function.update_self ..
          rw [List.append_nil] at hnext
          exact hnext
        · have hdead : ((st.setClient c { st.clients c with failed := true }).clients c).live =
              false := by
            simp [Client.live]
          refine h.fail.advance hl htodo _ (Or.inr ⟨rfl, hdead⟩) fun hlive => ?_
          rw [hdead] at hlive
          cases hlive
  · cases hs

/-- The removals find their peers, and no live peer is among them. -/
theorem LoopSound.removed (h : LoopSound st l) :
    ∃ left, l.toRemove.reverse.foldlM swapRemove st.peers = some left ∧
      ∀ c ∈ st.peers, (st.clients c).live = true → c ∈ left := by
  have hlt : ∀ i ∈ l.toRemove.reverse, i < st.peers.length := by
    intro i hi
    obtain ⟨c, hget, -⟩ := h.dead i (List.mem_reverse.mp hi)
    exact (List.getElem?_eq_some_iff.mp hget).1
  obtain ⟨left, hleft, hperm⟩ := foldlM_swapRemove (List.pairwise_reverse.mpr h.ascending) hlt
  refine ⟨left, hleft, fun c hmem hlive => ?_⟩
  rcases List.mem_append.mp (hperm.mem_iff.mp hmem) with hremoved | hstays
  · obtain ⟨i, hi, hget⟩ := List.mem_filterMap.mp hremoved
    obtain ⟨c', hget', hdead⟩ := h.dead i (List.mem_reverse.mp hi)
    obtain rfl : c' = c := Option.some.inj (hget'.symm.trans hget)
    rw [hdead] at hlive
    cases hlive
  · exact hstays

/-- Of the live peers none is removed, and all have been told. -/
theorem Inv.removeDead (h : Inv st) (hs : removeDead st = some st') : Inv st' := by
  rw [ListChanges.removeDead] at hs
  split at hs
  · next l hl =>
    split at hs
    · next htodo =>
      obtain ⟨peers, hpeers, rfl⟩ := Option.map_eq_some_iff.mp hs
      obtain ⟨left, hleft, hstays⟩ := (h.loop l hl).removed
      obtain rfl : left = peers := Option.some.inj (hleft.symm.trans hpeers)
      refine ⟨h.new, fun c hlive => hstays c (h.peers c hlive) hlive, fun t ht => ?_,
        fun _ hnone => (by cases hnone), fun c k hlive => ?_⟩
      · have hnone := h.started t ht
        rcases eq_or_ne t l.task with rfl | hne
        · exact Function.update_self ..
        · exact (Function.update_of_ne hne _ _).trans hnone
      · refine (h.follows c k hlive).frame rfl rfl ?_
        rintro ⟨u, hu, howed⟩
        rcases eq_or_ne u l.task with rfl | hne
        · have hin := howed l hl rfl
          rw [htodo] at hin
          cases hin
        · exact ⟨u, (Function.update_of_ne hne _ _).trans hu, fun _ hnone => (by cases hnone)⟩
    · cases hs
  · cases hs

/-- A task that has changed nothing is dropped. -/
theorem Inv.drop (h : Inv st) (hnone : st.changed t = none) :
    Inv { st with
      registry := st.registry.goto t .done
      changed := Function.update st.changed t none
      loop := st.loop.filter fun l => l.task != t } := by
  have hchanged : Function.update st.changed t none = st.changed := by
    rw [← hnone, Function.update_eq_self]
  have hloop : (st.loop.filter fun l => l.task != t) = st.loop := by
    cases hl : st.loop with
    | none => rfl
    | some l =>
      have hne : l.task ≠ t := by
        rintro rfl
        have hsome := (h.loop l hl).changed
        rw [hnone] at hsome
        cases hsome
      simp [Option.filter, hne]
  rw [hchanged, hloop]
  refine ⟨h.new, h.peers, fun u hu => ?_, fun l hl => { h.loop l hl with }, fun c k hlive => ?_⟩
  · rcases eq_or_ne u t with rfl | hne
    · exact hnone
    · have htasks : (st.registry.goto t .done).tasks u = st.registry.tasks u :=
        Function.update_of_ne hne _ _
      rw [htasks] at hu
      exact h.started u hu
  · exact (h.follows c k hlive).frame rfl rfl fun howed => howed

/-! ### Mutations -/

/-- A mutation changes the list of its kind, and no other. -/
theorem listing_mutate {r : CapabilityRegistry} {mutation : Mutation}
    (hne : kind ≠ notifyKind mutation) : listing (r.mutate mutation).1 kind = listing r kind := by
  cases mutation <;> cases kind <;> first | rfl | exact absurd rfl hne

/-- A section of a mutation that changes no map. -/
structure Still (st st' : RegistryProtocol.State) : Prop where
  listing : ∀ kind, ListChanges.listing st'.registry kind = ListChanges.listing st.registry kind
  begun : ∀ u, begun (st.tasks u) = true → begun (st'.tasks u) = true

theorem still_goto {st : RegistryProtocol.State} {registry : CapabilityRegistry}
    {pc : RegistryProtocol.Pc} (hlisting : ∀ kind, listing registry kind = listing st.registry kind)
    (hpc : begun (st.tasks t) = true → begun pc = true) :
    Still st ({ st with registry := registry }.goto t pc) := by
  refine ⟨hlisting, fun u hu => ?_⟩
  rcases eq_or_ne u t with rfl | hne
  · have htasks : ({ st with registry := registry }.goto u pc).tasks u = pc :=
      Function.update_self ..
    rw [htasks]
    exact hpc hu
  · have htasks : ({ st with registry := registry }.goto t pc).tasks u = st.tasks u :=
      Function.update_of_ne hne _ _
    rwa [htasks]

/-- A mutation runs the section that changes its map, or one that changes none. -/
theorem mutation_cases {st st' : RegistryProtocol.State} {l : RegistryProtocol.Label}
    (hs : RegistryProtocol.step hasher st l = some st') :
    (∃ t mutation, l = .run t ∧ st.tasks t = .mutate mutation ∧
      st' = { st with registry := (st.registry.mutate mutation).1 }.goto t
        (if (st.registry.mutate mutation).2 then .readTools else .done)) ∨
    (∀ t mutation, l = .run t → st.tasks t ≠ .mutate mutation) ∧ Still st st' := by
  cases l with
  | call t mutation =>
    simp only [RegistryProtocol.step] at hs
    split at hs <;> cases hs
    next hidle =>
    refine Or.inr ⟨fun _ _ heq => (by cases heq), still_goto (fun _ => rfl) fun hbegun => ?_⟩
    rw [hidle] at hbegun
    cases hbegun
  | run t =>
    have hother : ∀ {pc : RegistryProtocol.Pc}, st.tasks t = pc →
        (∀ mutation, pc ≠ .mutate mutation) →
        ∀ u mutation, RegistryProtocol.Label.run t = .run u → st.tasks u ≠ .mutate mutation := by
      rintro pc hpc hne u mutation ⟨⟩ hmutate
      exact hne mutation (hpc.symm.trans hmutate)
    cases hpc : st.tasks t with
    | idle => simp [RegistryProtocol.step, RegistryProtocol.runSection, hpc] at hs
    | done => simp [RegistryProtocol.step, RegistryProtocol.runSection, hpc] at hs
    | mutate mutation =>
      simp only [RegistryProtocol.step, RegistryProtocol.runSection, hpc] at hs
      exact Or.inl ⟨t, mutation, rfl, hpc, (Option.some.inj hs).symm⟩
    | readTools =>
      simp only [RegistryProtocol.step, RegistryProtocol.runSection, hpc] at hs
      cases hs
      exact Or.inr ⟨hother hpc fun _ heq => (by cases heq), still_goto (fun _ => rfl) fun _ => rfl⟩
    | readPrompts tools =>
      simp only [RegistryProtocol.step, RegistryProtocol.runSection, hpc] at hs
      cases hs
      exact Or.inr ⟨hother hpc fun _ heq => (by cases heq), still_goto (fun _ => rfl) fun _ => rfl⟩
    | readResources tools prompts =>
      simp only [RegistryProtocol.step, RegistryProtocol.runSection, hpc] at hs
      cases hs
      exact Or.inr ⟨hother hpc fun _ heq => (by cases heq), still_goto (fun _ => rfl) fun _ => rfl⟩
    | store tools prompts resources =>
      simp only [RegistryProtocol.step, RegistryProtocol.runSection, hpc] at hs
      cases hs
      refine Or.inr ⟨hother hpc fun _ heq => (by cases heq), still_goto ?_ fun _ => rfl⟩
      intro kind
      cases kind <;> rfl

/-- A map changes, and the task that changed it is to tell of it. -/
theorem Inv.change (h : Inv st) {mutation : Mutation}
    (hpc : st.registry.tasks t = .mutate mutation) :
    Inv { st with
      registry := { st.registry with registry := (st.registry.registry.mutate mutation).1 }.goto t
        .readTools
      changed := Function.update st.changed t (some (notifyKind mutation)) } := by
  have hnone : st.changed t = none := h.started t (by rw [hpc]; rfl)
  have hkept : ∀ u k, st.changed u = some k →
      Function.update st.changed t (some (notifyKind mutation)) u = some k := by
    intro u k hu
    have hne : u ≠ t := by
      rintro rfl
      rw [hnone] at hu
      cases hu
    exact (Function.update_of_ne hne _ _).trans hu
  refine ⟨h.new, h.peers, fun u hu => ?_, fun l hl => ?_, fun c k hlive => ?_⟩
  · have hu : begun (Function.update st.registry.tasks t .readTools u) = false := hu
    rcases eq_or_ne u t with rfl | hne
    · rw [Function.update_self] at hu
      cases hu
    · rw [Function.update_of_ne hne] at hu
      exact (Function.update_of_ne hne _ _).trans (h.started u hu)
  · have hsound := h.loop l hl
    exact { hsound with changed := hkept _ _ hsound.changed }
  · have hfollows := h.follows c k hlive
    rcases eq_or_ne k (notifyKind mutation) with rfl | hne
    · -- the task that has just changed the map has not begun to tell anyone
      refine Or.inr (Or.inr (Or.inr (Or.inr ⟨t, Function.update_self .., fun l hl htask => ?_⟩)))
      have hsome := (h.loop l hl).changed
      rw [htask, hnone] at hsome
      cases hsome
    · refine hfollows.frame rfl (listing_mutate hne) ?_
      rintro ⟨u, hu, howed⟩
      exact ⟨u, hkept u k hu, howed⟩

/-- Nothing that clients are told of changes. -/
theorem Inv.still (h : Inv st) {registry : RegistryProtocol.State}
    (hstill : Still st.registry registry) : Inv { st with registry := registry } := by
  refine ⟨h.new, h.peers, fun u hu => ?_, fun l hl => { h.loop l hl with }, fun c k hlive => ?_⟩
  · refine h.started u (Bool.eq_false_iff.mpr fun hbegun => ?_)
    have hu : begun (registry.tasks u) = false := hu
    rw [hstill.begun u hbegun] at hu
    cases hu
  · exact (h.follows c k hlive).frame rfl (hstill.listing k) fun howed => howed

theorem Inv.mutation (h : Inv st) {l : RegistryProtocol.Label} {registry : RegistryProtocol.State}
    (hs : RegistryProtocol.step hasher st.registry l = some registry) :
    Inv { st with registry := registry, changed := changes st l } := by
  rcases mutation_cases hs with ⟨t, mutation, rfl, hpc, rfl⟩ | ⟨hnot, hstill⟩
  · cases hchanged : (st.registry.registry.mutate mutation).2 with
    | true =>
      simp only [changes, hpc, hchanged, if_true]
      exact h.change hpc
    | false =>
      simp only [changes, hpc, hchanged, Bool.false_eq_true, if_false]
      refine h.still (still_goto (fun _ => ?_) fun _ => rfl)
      rw [RegistryProtocol.mutate_of_unchanged hchanged]
  · have hsame : changes st l = st.changed := by
      cases l with
      | call t mutation => rfl
      | run t =>
        rw [changes]
        split
        · next mutation hpc => exact absurd hpc (hnot t mutation rfl)
        · rfl
    rw [hsame]
    exact h.still hstill

theorem Inv.step (h : Inv st) {l : Label} (hg : Attended st l)
    (hs : step hasher st l = some st') : Inv st' := by
  cases l with
  | mutation l =>
    obtain ⟨registry, hregistry, rfl⟩ := Option.map_eq_some_iff.mp hs
    exact h.mutation hregistry
  | notifyPeers t =>
    simp only [ListChanges.step] at hs
    split at hs <;> cases hs
    next hchanged _ => exact h.startLoop hchanged
  | notifyPeer sent => exact h.visit hs
  | removeDead => exact h.removeDead hs
  | drop t =>
    cases hs
    exact h.drop hg
  | connect c =>
    simp only [ListChanges.step] at hs
    split at hs <;> cases hs
    next hcond =>
    simp only [Bool.and_eq_true, Option.isNone_iff_eq_none, Bool.not_eq_true'] at hcond
    exact h.connect hcond.1 hcond.2
  | peers =>
    simp only [ListChanges.step] at hs
    split at hs <;> cases hs
    next hcond => exact h.prune (Option.isNone_iff_eq_none.mp hcond)
  | close c =>
    cases hs
    exact h.close
  | ask c kind =>
    simp only [ListChanges.step] at hs
    split at hs <;> cases hs
    next hcond =>
    simp only [Bool.and_eq_true] at hcond
    exact h.ask hcond.1
  | serve c kind =>
    simp only [ListChanges.step] at hs
    split at hs <;> cases hs
    next hasking => exact h.serve hasking

end Steps

/-! ## Every run -/

/-- **A client that follows what it is told holds the current lists.** In every run
in which no mutation is dropped between its change and the end of its announcement:
once nobody has a change of a kind still to tell, a connected client that sending
has not failed to, and that has asked since it was last told, holds exactly what is
registered; and removing the dead peers never fails. -/
theorem idle_clients_are_current {hasher : List UInt8 → Nat} {st : State}
    (hr : (system hasher).Reach Attended (init hasher) st) :
    (∀ kind, (∀ t, st.changed t ≠ some kind) → ∀ c, (st.clients c).live = true →
      (st.clients c).told kind = false → (st.clients c).asking kind = false →
      ∀ held, (st.clients c).listed kind = some held →
        held = listing st.registry.registry kind) ∧
    ∀ l, st.loop = some l → l.todo = [] → (removeDead st).isSome = true := by
  have h : Inv st := hr.invariant .init fun _ _ _ h hg hs => h.step hg hs
  refine ⟨fun kind hquiet c hlive htold hasking held hheld => ?_, fun l hl htodo => ?_⟩
  · rcases h.follows c kind hlive with hnone | hcurrent | htold' | hasking' | ⟨t, ht, -⟩
    · rw [hheld] at hnone
      cases hnone
    · rw [hheld] at hcurrent
      exact Option.some.inj hcurrent
    · rw [htold] at htold'
      cases htold'
    · rw [hasking] at hasking'
      cases hasking'
    · exact absurd ht (hquiet t)
  · obtain ⟨left, hleft, -⟩ := (h.loop l hl).removed
    rw [removeDead, hl]
    simp only [htodo, if_true, hleft, Option.map_some, Option.isSome_some]

/-! ## A mutation that is dropped -/

def toolOf : Listing → List String
  | .tools tools => tools.map (·.name)
  | _ => []

/-- Client 7 connects and asks for the tools. -/
def listedOnce : List Label := [.connect 7, .ask 7 .tools, .serve 7 .tools]

/-- A tool is added and its version stored. -/
def added : List Label :=
  [.mutation (.call 0 RegistryProtocol.toolX)] ++ List.replicate 5 (.mutation (.run 0))

/-- The client is told of the tool, and asks again. -/
def announced : List Label :=
  listedOnce ++ added ++
    [.notifyPeers 0, .notifyPeer true, .removeDead, .ask 7 .tools, .serve 7 .tools]

theorem announced_runs :
    ((system RegistryProtocol.positional).run Attended (init RegistryProtocol.positional)
      announced).isSome = true := by decide +kernel

def afterAnnounced : State :=
  ((system RegistryProtocol.positional).run Attended (init RegistryProtocol.positional)
    announced).get announced_runs

theorem announced_tool_is_held :
    ((afterAnnounced.clients 7).listed .tools).map toolOf = some ["x"] ∧
      ∀ held, (afterAnnounced.clients 7).listed .tools = some held →
        held = listing afterAnnounced.registry.registry .tools := by
  have hchanged : afterAnnounced.changed =
      Function.update (Function.update (fun _ => none) 0 (some .tools)) 0 none := rfl
  have hquiet : ∀ t, afterAnnounced.changed t ≠ some .tools := fun t => by
    rw [hchanged, Function.update_idem]
    simp
  exact ⟨by decide +kernel, (idle_clients_are_current (System.reach_get announced_runs)).1 .tools
    hquiet 7 (by decide +kernel) (by decide +kernel) (by decide +kernel)⟩

/-- The task that has added the tool is dropped before anyone is told. -/
def dropped : List Label := listedOnce ++ added ++ [.drop 0]

/-- Nobody is left to tell the client, which holds no tool. -/
theorem dropped_mutation_leaves_client_behind :
    ∃ st : State, (system RegistryProtocol.positional).Reach (fun _ _ => True)
        (init RegistryProtocol.positional) st ∧
      (st.changed 0 = none ∧ (st.clients 7).live = true ∧ (st.clients 7).told .tools = false ∧
        ((st.clients 7).listed .tools).map toolOf = some [] ∧
        toolOf (listing st.registry.registry .tools) = ["x"]) := by
  obtain ⟨st, hr, hp⟩ := System.exists_reach_of_run (S := system RegistryProtocol.positional)
    (G := fun _ _ => True) (s := init RegistryProtocol.positional) (w := dropped)
    (p := fun st => decide (st.changed 0 = none ∧ (st.clients 7).live = true ∧
      (st.clients 7).told .tools = false ∧
      ((st.clients 7).listed .tools).map toolOf = some [] ∧
      toolOf (listing st.registry.registry .tools) = ["x"])) (by decide +kernel)
  exact ⟨st, hr, of_decide_eq_true hp⟩

end McpFramework.ListChanges
