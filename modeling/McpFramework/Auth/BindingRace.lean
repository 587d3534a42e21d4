import McpFramework.Auth.Binding
import McpFramework.Lib.Transition

/-!
# Auth — BindingRace

Concurrent claims of one session on one instance. `claim` runs as the sections
between its awaits: the check under the read lock, the backend read, and
`remember` under the write lock. A lock section reads the clock and the table
in one step; nothing is awaited while the lock is held.

The check and the write are separate sections and the write asks nothing, so
two first claimants can both pass the check and both be told `true`. What
makes one winner is that no write displaces a live binding of another identity
(`displaces`), and that is all it takes.
-/

namespace McpFramework.BindingRace

open Lib

/-- Where a caller of `claim(s, identity)` stands. -/
inductive Pc where
  | idle
  | check (identity : String)
  | load (identity : String)
  | rememberPeer (identity peerIdentity : String)
  | rememberOwn (identity : String)
  | done (accepted : Bool)
deriving DecidableEq, Repr

/-- `writes` are the identities of the spawned write-throughs that have not
landed. `wins` records who was told `true` and when, newest first. -/
structure State where
  store : SessionBindings
  now : Nat
  pc : Nat → Pc
  writes : List String
  wins : List (String × Nat)

inductive Label where
  | tick (d : Nat)
  /-- Caller `i` calls `claim(s, identity)`. -/
  | call (i : Nat) (identity : String)
  /-- Caller `i` runs its next section. -/
  | run (i : Nat)
  /-- The `n`-th pending write-through lands. -/
  | land (n : Nat)
  /-- The backend drops the record of `s`. -/
  | lapse

variable (s : String)

/-- Caller `i` is answered `true`. -/
def State.win (st : State) (i : Nat) (identity : String) : State :=
  { st with
    pc := Function.update st.pc i (.done true)
    wins := (identity, st.now) :: st.wins }

def State.goto (st : State) (i : Nat) (pc : Pc) : State :=
  { st with pc := Function.update st.pc i pc }

def runSection (st : State) (i : Nat) : Option State :=
  match st.pc i with
  | .check identity =>
    match st.store.check st.now s identity with
    | .refused => some (st.goto i (.done false))
    | .accepted => some (st.win i identity)
    | .cold =>
      if st.store.persistence.isSome then some (st.goto i (.load identity))
      else some (st.goto i (.rememberOwn identity))
  | .load identity =>
    match st.store.load s with
    | some peerIdentity => some (st.goto i (.rememberPeer identity peerIdentity))
    | none => some (st.goto i (.rememberOwn identity))
  | .rememberPeer identity peerIdentity =>
    let st' := { st with store := st.store.remember st.now s peerIdentity }
    if peerIdentity = identity then some (st'.win i identity)
    else some (st'.goto i (.done false))
  | .rememberOwn identity =>
    let st' := { st with
      store := st.store.remember st.now s identity
      writes := if st.store.persistence.isSome then identity :: st.writes else st.writes }
    some (st'.win i identity)
  | .idle => none
  | .done _ => none

def step (st : State) : Label → Option State
  | .tick d => some { st with now := st.now + d }
  | .call i identity => if st.pc i = .idle then some (st.goto i (.check identity)) else none
  | .run i => runSection s st i
  | .land n =>
    match st.writes[n]? with
    | some identity =>
      some { st with
        store := st.store.writeThrough s identity
        writes := st.writes.eraseIdx n }
    | none => none
  | .lapse => some { st with store := st.store.lapse s }

def system : System State Label := ⟨step s⟩

/-- No caller is under way, nothing is bound to `s` or about to be. -/
def init (store : SessionBindings) (now : Nat) : State :=
  { store := store, now := now, pc := fun _ => .idle, writes := [], wins := [] }

/-- `s` is bound to nobody: no live entry and no readable record. -/
def Unbound (store : SessionBindings) (now : Nat) : Prop :=
  (∀ e, store.bindings.get? s = some e → e.expiresAt ≤ now) ∧ store.load s = none

/-- At most one identity is told `true` within a TTL of the first success. -/
def OneWinner (ttl : Nat) (wins : List (String × Nat)) : Prop :=
  ∀ first, wins.getLast? = some first →
    ∀ w ∈ wins, w.2 < first.2 + ttl → w.1 = first.1

/-- The step is a write that replaces a live binding of another identity. -/
def displaces (st : State) : Label → Bool
  | .run i =>
    match st.pc i with
    | .rememberPeer _ peerIdentity => st.store.check st.now s peerIdentity == .refused
    | .rememberOwn identity => st.store.check st.now s identity == .refused
    | _ => false
  | _ => false

/-- Check, then write: nothing is displaced. -/
abbrev Orderly : State → Label → Prop := fun st l => displaces s st l = false

/-! ## The invariant

The first winner's binding stays until a TTL after that win, because the only
write that could replace it displaces it. Before the first win nothing is
bound and no caller has heard of a peer. -/

structure Inv (st : State) : Prop where
  unbound : st.wins = [] → Unbound s st.store st.now ∧ st.writes = [] ∧
    ∀ i identity peer, st.pc i ≠ .rememberPeer identity peer
  bound : ∀ first, st.wins.getLast? = some first → st.now < first.2 + st.store.ttl →
    ∃ e, st.store.bindings.get? s = some e ∧ e.identity = first.1 ∧
      first.2 + st.store.ttl ≤ e.expiresAt
  past : ∀ w ∈ st.wins, w.2 ≤ st.now
  winner : OneWinner st.store.ttl st.wins

variable {s}

theorem inv_init {store : SessionBindings} {now : Nat} (h : Unbound s store now) :
    Inv s (init store now) := by
  refine ⟨fun _ => ⟨h, rfl, fun i identity peer hpc => ?_⟩, ?_, ?_, ?_⟩
  · cases hpc
  · intro first hf
    simp [init] at hf
  · intro w hw
    simp [init] at hw
  · intro first hf
    simp [init] at hf

/-- A move of one caller that is neither a write nor an answer `true`. -/
theorem Inv.goto {st : State} (hi : Inv s st) (i : Nat) {pc : Pc}
    (hpc : st.wins = [] → ∀ identity peer, pc ≠ .rememberPeer identity peer) :
    Inv s (st.goto i pc) := by
  refine ⟨fun hw => ?_, hi.bound, hi.past, hi.winner⟩
  obtain ⟨hu, hwr, hnone⟩ := hi.unbound hw
  refine ⟨hu, hwr, ?_⟩
  exact (forall_update_iff (P := fun _ (p : Pc) =>
    ∀ identity peer, p ≠ .rememberPeer identity peer)).mpr ⟨hpc hw, fun j _ => hnone j⟩

/-- An answer `true` by the identity the table binds until a TTL from now, or
by whoever the first winner is. -/
theorem Inv.win {st : State} (hi : Inv s st) (i : Nat) {identity : String}
    (hfirst : st.wins = [] → ∃ e, st.store.bindings.get? s = some e ∧
      e.identity = identity ∧ st.now + st.store.ttl ≤ e.expiresAt)
    (hsame : ∀ first, st.wins.getLast? = some first → st.now < first.2 + st.store.ttl →
      identity = first.1) :
    Inv s (st.win i identity) := by
  refine ⟨fun hw => absurd hw (List.cons_ne_nil _ _), ?_, ?_, ?_⟩
  · intro first hf hlt
    cases hw : st.wins with
    | nil =>
      simp only [State.win, hw, List.getLast?_singleton, Option.some.injEq] at hf
      subst hf
      exact hfirst hw
    | cons w ws =>
      simp only [State.win, hw, List.getLast?_cons_cons] at hf
      exact hi.bound first (by rw [hw]; exact hf) hlt
  · intro w hw
    rcases List.mem_cons.mp hw with rfl | hw
    · exact Nat.le_refl _
    · exact hi.past w hw
  · intro first hf w hmem hlt
    cases hw : st.wins with
    | nil =>
      simp only [State.win, hw, List.getLast?_singleton, Option.some.injEq,
        List.mem_singleton] at hf hmem
      rw [hmem, ← hf]
    | cons v vs =>
      have hf' : st.wins.getLast? = some first := by
        simp only [State.win, hw, List.getLast?_cons_cons] at hf
        rw [hw]
        exact hf
      rcases List.mem_cons.mp hmem with rfl | hmem
      · exact hsame first hf' hlt
      · exact hi.winner first hf' w hmem hlt

/-- A write on behalf of an identity that displaces nobody leaves the first
winner bound for its TTL. -/
theorem Inv.remember {st : State} (hi : Inv s st) {identity : String} (hne : st.wins ≠ [])
    (hno : st.store.check st.now s identity ≠ .refused) :
    Inv s { st with store := st.store.remember st.now s identity } := by
  refine ⟨fun hw => absurd hw hne, ?_, hi.past, hi.winner⟩
  intro first hf hlt
  obtain ⟨e, hget, hid, hexp⟩ := hi.bound first hf hlt
  have hpast := hi.past first (List.mem_of_getLast? hf)
  refine ⟨_, SessionBindings.remember_get?_self, ?_, ?_⟩
  · by_contra hother
    refine hno (SessionBindings.check_eq_refused_iff.mpr ⟨e, hget, ?_, ?_⟩)
    · exact Nat.lt_of_lt_of_le hlt hexp
    · rw [hid]
      exact fun h => hother h.symm
  · show first.2 + st.store.ttl ≤ st.now + st.store.ttl
    omega

/-- Whoever passes the check while the first winner is bound is that winner. -/
theorem Inv.not_refused {st : State} (hi : Inv s st) {identity : String}
    (hno : st.store.check st.now s identity ≠ .refused) {first : String × Nat}
    (hf : st.wins.getLast? = some first) (hlt : st.now < first.2 + st.store.ttl) :
    identity = first.1 := by
  obtain ⟨e, hget, hid, hexp⟩ := hi.bound first hf hlt
  by_contra hne
  exact hno (SessionBindings.check_eq_refused_iff.mpr
    ⟨e, hget, Nat.lt_of_lt_of_le hlt hexp, fun h => hne (by rw [← hid, h])⟩)

/-- The caller's own write, and the answer that follows from it. -/
theorem Inv.rememberOwn {st : State} (hi : Inv s st) (i : Nat) {identity : String}
    (hno : st.store.check st.now s identity ≠ .refused) (writes : List String) :
    Inv s (State.win { st with store := st.store.remember st.now s identity, writes := writes }
      i identity) := by
  by_cases hw : st.wins = []
  · refine ⟨fun h => absurd h (List.cons_ne_nil _ _), ?_, ?_, ?_⟩
    · intro first hf _
      simp only [State.win, hw, List.getLast?_singleton, Option.some.injEq] at hf
      subst hf
      exact ⟨_, SessionBindings.remember_get?_self, rfl, Nat.le_refl _⟩
    · intro w hmem
      simp only [State.win, hw, List.mem_singleton] at hmem
      subst hmem
      exact Nat.le_refl _
    · intro first hf w hmem _
      simp only [State.win, hw, List.getLast?_singleton, Option.some.injEq,
        List.mem_singleton] at hf hmem
      rw [hmem, ← hf]
  · have hr := hi.remember hw hno
    have hr' : Inv s { st with store := st.store.remember st.now s identity, writes := writes } :=
      ⟨fun h => absurd h hw, hr.bound, hr.past, hr.winner⟩
    exact hr'.win i (fun h => absurd h hw) fun first hf hlt => hi.not_refused hno hf hlt

theorem Inv.runSection {st st' : State} {i : Nat} (hi : Inv s st)
    (hg : displaces s st (.run i) = false) (hs : runSection s st i = some st') : Inv s st' := by
  unfold BindingRace.runSection at hs
  cases hpc : st.pc i with
  | idle => simp [hpc] at hs
  | done accepted => simp [hpc] at hs
  | check identity =>
    simp only [hpc] at hs
    cases hc : st.store.check st.now s identity with
    | refused =>
      simp only [hc, Option.some.injEq] at hs
      subst hs
      exact hi.goto i fun _ _ _ h => by cases h
    | accepted =>
      simp only [hc, Option.some.injEq] at hs
      subst hs
      obtain ⟨e, hget, -, hlive⟩ := SessionBindings.check_eq_accepted_iff.mp hc
      refine hi.win i (fun hw => ?_) fun first hf hlt => hi.not_refused (by simp [hc]) hf hlt
      -- Before the first success there is no live entry to be accepted by.
      have := (hi.unbound hw).1.1 e hget
      omega
    | cold =>
      simp only [hc] at hs
      split at hs <;> cases hs <;> exact hi.goto i fun _ _ _ h => by cases h
  | load identity =>
    simp only [hpc] at hs
    cases hl : st.store.load s with
    | some peer =>
      simp only [hl, Option.some.injEq] at hs
      subst hs
      -- Before the first success there is nothing to be read either.
      refine hi.goto i fun hw => ?_
      have hnone := (hi.unbound hw).1.2
      rw [hl] at hnone
      cases hnone
    | none =>
      simp only [hl, Option.some.injEq] at hs
      subst hs
      exact hi.goto i fun _ _ _ h => by cases h
  | rememberPeer identity peer =>
    simp only [hpc] at hs
    have hno : st.store.check st.now s peer ≠ .refused := by
      simpa [displaces, hpc] using hg
    have hne : st.wins ≠ [] := fun hw => (hi.unbound hw).2.2 i identity peer hpc
    have hr := hi.remember hne hno
    split at hs
    · rename_i heq
      subst heq
      cases hs
      exact hr.win i (fun h => absurd h hne) fun first hf hlt => hi.not_refused hno hf hlt
    · cases hs
      exact hr.goto i fun h => absurd h hne
  | rememberOwn identity =>
    simp only [hpc, Option.some.injEq] at hs
    subst hs
    have hno : st.store.check st.now s identity ≠ .refused := by
      simpa [displaces, hpc] using hg
    exact hi.rememberOwn i hno _

theorem Inv.step {st st' : State} {l : Label} (hi : Inv s st) (hg : Orderly s st l)
    (hs : step s st l = some st') : Inv s st' := by
  cases l with
  | tick d =>
    cases hs
    refine ⟨fun hw => ?_, fun first hf hlt => ?_, fun w hw => ?_, hi.winner⟩
    · obtain ⟨⟨hdead, hload⟩, hrest⟩ := hi.unbound hw
      exact ⟨⟨fun e he => Nat.le_add_right_of_le (hdead e he), hload⟩, hrest⟩
    · exact hi.bound first hf (Nat.lt_of_le_of_lt (Nat.le_add_right _ d) hlt)
    · exact Nat.le_add_right_of_le (hi.past w hw)
  | call i identity =>
    simp only [BindingRace.step] at hs
    split at hs
    · cases hs
      exact hi.goto i fun _ _ _ h => by cases h
    · cases hs
  | run i => exact hi.runSection hg hs
  | land n =>
    simp only [BindingRace.step] at hs
    cases hw : st.writes[n]? with
    | none => simp [hw] at hs
    | some identity =>
      simp only [hw, Option.some.injEq] at hs
      subst hs
      refine ⟨fun h => ?_, hi.bound, hi.past, hi.winner⟩
      have := (hi.unbound h).2.1
      simp [this] at hw
  | lapse =>
    cases hs
    refine ⟨fun hw => ?_, hi.bound, hi.past, hi.winner⟩
    obtain ⟨⟨hdead, hload⟩, hrest⟩ := hi.unbound hw
    refine ⟨⟨hdead, ?_⟩, hrest⟩
    cases hl : (st.store.lapse s).load s with
    | none => rfl
    | some peer => exact (SessionBindings.load_lapse_some hl).symm.trans hload

end McpFramework.BindingRace
