import McpFramework.Lib.SwapRemove
import McpFramework.Lib.Transition

/-!
# Capability — Peers

The connected peers of a registry (`capability/registry.rs`): a change is sent to
each of them, and those found closed or out of reach are removed afterwards by
`swap_remove`, in the reverse of the order they were found in.

Registering, listing and notifying each hold the write lock of the list from
beginning to end, so they take place one after the other.
-/

namespace McpFramework

open Lib

inductive NotifyKind where
  | tools
  | prompts
  | resources
deriving DecidableEq

/-- What the peers of a list answer, each at its own turn: the calls of the
protocol library on the peer at a position. -/
structure PeerCalls (Peer : Type) where
  isTransportClosed : Nat → Peer → Bool
  notifyToolListChanged : Nat → Peer → Except String Unit
  notifyPromptListChanged : Nat → Peer → Except String Unit
  notifyResourceListChanged : Nat → Peer → Except String Unit

/-- The loop of `notify_peers`: the positions to remove, and who was sent to. -/
structure Notifying (Peer : Type) where
  toRemove : List Nat
  sent : List Peer

namespace PeerCalls

variable {Peer : Type} (calls : PeerCalls Peer) (kind : NotifyKind)

def notify : Nat → Peer → Except String Unit :=
  match kind with
  | .tools => calls.notifyToolListChanged
  | .prompts => calls.notifyPromptListChanged
  | .resources => calls.notifyResourceListChanged

def notifyPeer (r : Notifying Peer) (e : Peer × Nat) : Notifying Peer :=
  if calls.isTransportClosed e.2 e.1 then { r with toRemove := r.toRemove ++ [e.2] }
  else
    match calls.notify kind e.2 e.1 with
    | .error _ => { toRemove := r.toRemove ++ [e.2], sent := r.sent ++ [e.1] }
    | .ok _ => { r with sent := r.sent ++ [e.1] }

/-- The peers that stay and those that were sent to; `none` is a removal out of
bounds. -/
def notifyPeers (peers : List Peer) : Option (List Peer × List Peer) :=
  let r := peers.zipIdx.foldl (calls.notifyPeer kind) ⟨[], []⟩
  (r.toRemove.reverse.foldlM swapRemove peers).map fun left => (left, r.sent)

/-- Closed, or not notified. -/
def dead (e : Peer × Nat) : Bool :=
  calls.isTransportClosed e.2 e.1 || !(calls.notify kind e.2 e.1).isOk

def closed (e : Peer × Nat) : Bool := calls.isTransportClosed e.2 e.1

theorem foldl_notifyPeer (entries : List (Peer × Nat)) (r : Notifying Peer) :
    entries.foldl (calls.notifyPeer kind) r =
      { toRemove := r.toRemove ++ (entries.filter (calls.dead kind)).map (·.2)
        sent := r.sent ++ (entries.filter fun e => !calls.closed e).map (·.1) } := by
  induction entries generalizing r with
  | nil => simp
  | cons e entries ih =>
    rw [List.foldl_cons, ih, notifyPeer]
    cases hclosed : calls.isTransportClosed e.2 e.1 with
    | true => simp [dead, closed, hclosed]
    | false =>
      cases hnotify : calls.notify kind e.2 e.1 with
      | error error => simp [dead, closed, hclosed, hnotify, Except.isOk, Except.toBool]
      | ok => simp [dead, closed, hclosed, hnotify, Except.isOk, Except.toBool]

/-- What the loop collects are the positions of the dead peers. -/
theorem notifyPeers_eq (peers : List Peer) :
    calls.notifyPeers kind peers =
      ((positions (calls.dead kind) peers).reverse.foldlM swapRemove peers).map fun left =>
        (left, elements (fun e => !calls.closed e) peers) := by
  rw [notifyPeers, foldl_notifyPeer]
  rfl

theorem exists_notifyPeers (peers : List Peer) :
    ∃ left, calls.notifyPeers kind peers = some (left, elements (fun e => !calls.closed e) peers) ∧
      left.Perm (elements (fun e => !calls.dead kind e) peers) := by
  obtain ⟨left, hleft, hperm⟩ := foldlM_swapRemove_positions (calls.dead kind) peers
  refine ⟨left, ?_, hperm⟩
  rw [notifyPeers_eq, hleft]
  rfl

end PeerCalls

/-! ## Runs -/

/-- The list, with all that were ever registered and those found dead since. -/
structure Peers (Peer : Type) where
  peers : List Peer
  registered : List Peer
  pruned : List Peer

namespace Peers

variable {Peer : Type}

inductive Label (Peer : Type) where
  | registerPeer (peer : Peer)
  | peers (calls : PeerCalls Peer)
  | notifyPeers (calls : PeerCalls Peer) (kind : NotifyKind)

def init : Peers Peer := ⟨[], [], []⟩

def step (st : Peers Peer) : Label Peer → Option (Peers Peer)
  | .registerPeer peer =>
    some { st with peers := st.peers ++ [peer], registered := st.registered ++ [peer] }
  | .peers calls => some { st with
      peers := elements (fun e => !calls.closed e) st.peers
      pruned := st.pruned ++ elements calls.closed st.peers }
  | .notifyPeers calls kind => (calls.notifyPeers kind st.peers).map fun r =>
      { st with peers := r.1, pruned := st.pruned ++ elements (calls.dead kind) st.peers }

def system : System (Peers Peer) (Label Peer) := ⟨step⟩

/-- Everyone registered is in the list or was found dead, once. -/
def Accounted (st : Peers Peer) : Prop := st.registered.Perm (st.pruned ++ st.peers)

variable {st st' : Peers Peer}

theorem Accounted.prune (h : Accounted st) {p : Peer × Nat → Bool} {left : List Peer}
    (hleft : left.Perm (elements (fun e => !p e) st.peers)) :
    Accounted { st with peers := left, pruned := st.pruned ++ elements p st.peers } := by
  have hsplit : st.peers.Perm (elements p st.peers ++ left) :=
    (elements_append_perm p st.peers).symm.trans (hleft.symm.append_left _)
  show st.registered.Perm (st.pruned ++ elements p st.peers ++ left)
  rw [List.append_assoc]
  exact h.trans (hsplit.append_left _)

theorem Accounted.step {l : Label Peer} (h : Accounted st) (hs : step st l = some st') :
    Accounted st' := by
  cases l with
  | registerPeer peer =>
    cases hs
    show (st.registered ++ [peer]).Perm (st.pruned ++ (st.peers ++ [peer]))
    rw [← List.append_assoc]
    exact h.append_right [peer]
  | peers calls =>
    cases hs
    exact h.prune (.refl _)
  | notifyPeers calls kind =>
    obtain ⟨left, hleft, hperm⟩ := calls.exists_notifyPeers kind st.peers
    rw [Peers.step, hleft] at hs
    cases hs
    exact h.prune hperm

theorem isSome_step (st : Peers Peer) (l : Label Peer) : (step st l).isSome = true := by
  cases l with
  | registerPeer peer => rfl
  | peers calls => rfl
  | notifyPeers calls kind =>
    obtain ⟨left, hleft, -⟩ := calls.exists_notifyPeers kind st.peers
    rw [step, hleft]
    rfl

end Peers

/-- **Exactly the dead peers go.** Whatever the peers answer, notifying them removes
nothing out of bounds; who was not closed has been sent to, and exactly those who
are neither closed nor failed stay, each once. So in every run a registered peer is
in the list until it is found dead. -/
theorem exactly_dead_peers_pruned {Peer : Type} :
    (∀ (calls : PeerCalls Peer) (kind : NotifyKind) (peers : List Peer),
      ∃ left, calls.notifyPeers kind peers =
          some (left, elements (fun e => !calls.closed e) peers) ∧
        left.Perm (elements (fun e => !calls.dead kind e) peers)) ∧
    ∀ st : Peers Peer, Peers.system.Reach (fun _ _ => True) Peers.init st →
      st.registered.Perm (st.pruned ++ st.peers) ∧ ∀ l, (Peers.step st l).isSome = true := by
  refine ⟨fun calls kind peers => calls.exists_notifyPeers kind peers, fun st hr => ?_⟩
  have haccounted : Peers.Accounted st :=
    hr.invariant (.refl _) fun _ _ _ h _ hs => h.step hs
  exact ⟨haccounted, Peers.isSome_step st⟩

/-- Of four peers the second is closed and the fourth fails. -/
example :
    let calls : PeerCalls String :=
      { isTransportClosed := fun i _ => i == 1
        notifyToolListChanged := fun _ peer => if peer = "d" then .error "gone" else .ok ()
        notifyPromptListChanged := fun _ _ => .ok ()
        notifyResourceListChanged := fun _ _ => .ok () }
    calls.notifyPeers .tools ["a", "b", "c", "d"] = some (["a", "c"], ["a", "c", "d"]) := by
  decide

end McpFramework
