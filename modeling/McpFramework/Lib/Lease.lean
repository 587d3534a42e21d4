import Mathlib.Logic.Function.Basic
import McpFramework.Lib.Transition

/-!
# Lib — Lease

Stores of leases. A slot is held under a token until a deadline, or until it is
released under that token; several names may share a slot.

Who holds a slot is read off the history of grants here, not off the store: a
grant counts until its deadline unless its token was released. That the store
never says otherwise is the invariant.
-/

namespace McpFramework.Lib

/-- A store of leases: what a slot holds and until when, and the two calls.
`now` is the moment a call takes effect and `readAt` an earlier one, at which the
caller may have read its clock. The answer of `acquire` is `none` where the call
fails. -/
structure LeaseStore (σ κ ρ τ : Type*) where
  slot : κ → ρ
  entry : σ → ρ → Option (τ × Nat)
  deadline : (now readAt ttl : Nat) → Nat
  acquire : σ → (now readAt : Nat) → κ → τ → (ttl : Nat) → σ × Option Bool
  release : σ → (now : Nat) → κ → τ → σ

/-- The calls of a run, at the moment of its clock. -/
inductive LeaseCall (κ τ : Type*) where
  | wait (d : Nat)
  | acquire (k : κ) (token : τ) (ttl readAt : Nat)
  | release (k : κ) (token : τ)

/-- A run: its clock, the store, and the grants that were not released. -/
structure LeaseState (σ ρ τ : Type*) where
  clock : Nat
  store : σ
  grants : List (ρ × τ × Nat)

namespace LeaseState

variable {σ ρ τ : Type*}

def start (clock : Nat) (store : σ) : LeaseState σ ρ τ := ⟨clock, store, []⟩

/-- A slot is held under a token until `d`: it was granted, not released, and has
not run out. -/
def Holds (s : LeaseState σ ρ τ) (r : ρ) (token : τ) (d : Nat) : Prop :=
  (r, token, d) ∈ s.grants ∧ s.clock < d

end LeaseState

namespace LeaseStore

variable {σ κ ρ τ : Type*} [DecidableEq ρ] {L : LeaseStore σ κ ρ τ} {s t : LeaseState σ ρ τ}

/-- What a store owes. A lease is granted only where none is running, and then
it is what the slot holds; a release takes away no lease but its token's. -/
structure Lawful (L : LeaseStore σ κ ρ τ) : Prop where
  acquire_free : ∀ s now readAt k token ttl, readAt ≤ now →
    (L.acquire s now readAt k token ttl).2 = some true →
      ∀ owner d, L.entry s (L.slot k) = some (owner, d) → d ≤ now
  acquire_entry : ∀ s now readAt k token ttl,
    (L.acquire s now readAt k token ttl).2 = some true → ∀ r,
      L.entry (L.acquire s now readAt k token ttl).1 r =
        if r = L.slot k then some (token, L.deadline now readAt ttl) else L.entry s r
  acquire_refused : ∀ s now readAt k token ttl,
    (L.acquire s now readAt k token ttl).2 ≠ some true →
      (L.acquire s now readAt k token ttl).1 = s
  release_keeps : ∀ s now k token r owner d, L.entry s r = some (owner, d) →
    ¬ (r = L.slot k ∧ owner = token) → L.entry (L.release s now k token) r = some (owner, d)
  release_adds : ∀ s now k token r e,
    L.entry (L.release s now k token) r = some e → L.entry s r = some e
  release_frees : ∀ s now k token d,
    L.entry (L.release s now k token) (L.slot k) = some (token, d) → d ≤ now

/-- A call that grants: the slot's lease had run out, and the new one is what it
holds then. -/
structure Grants (L : LeaseStore σ κ ρ τ) (s : σ) (now readAt : Nat) (k : κ) (token : τ)
    (ttl : Nat) (s' : σ) : Prop where
  free : readAt ≤ now → ∀ owner d, L.entry s (L.slot k) = some (owner, d) → d ≤ now
  entry : ∀ r, L.entry s' r =
    if r = L.slot k then some (token, L.deadline now readAt ttl) else L.entry s r

/-- What `acquire` owes, of a call that grants or else leaves the store. -/
theorem acquire_outcome {s : σ} {now readAt : Nat} {k : κ} {token : τ} {ttl : Nat}
    (h : (∃ s', L.Grants s now readAt k token ttl s' ∧
        L.acquire s now readAt k token ttl = (s', some true)) ∨
      ∃ answer, answer ≠ some true ∧ L.acquire s now readAt k token ttl = (s, answer)) :
    ((L.acquire s now readAt k token ttl).2 = some true →
        L.Grants s now readAt k token ttl (L.acquire s now readAt k token ttl).1) ∧
      ((L.acquire s now readAt k token ttl).2 ≠ some true →
        (L.acquire s now readAt k token ttl).1 = s) := by
  rcases h with ⟨s', hgrants, heq⟩ | ⟨answer, hne, heq⟩
  · rw [heq]
    exact ⟨fun _ => hgrants, fun hrefused => absurd rfl hrefused⟩
  · rw [heq]
    exact ⟨fun hgranted => absurd hgranted hne, fun _ => rfl⟩

/-- The store and the history tell the same leases. -/
def Agrees (L : LeaseStore σ κ ρ τ) (s : LeaseState σ ρ τ) : Prop :=
  ∀ r token d, s.clock < d → ((r, token, d) ∈ s.grants ↔ L.entry s.store r = some (token, d))

theorem Agrees.granted (hL : Lawful L) (h : Agrees L s) {k : κ} {token : τ} {ttl readAt : Nat}
    (hread : readAt ≤ s.clock)
    (hgranted : (L.acquire s.store s.clock readAt k token ttl).2 = some true) :
    Agrees L { s with
      store := (L.acquire s.store s.clock readAt k token ttl).1
      grants := (L.slot k, token, L.deadline s.clock readAt ttl) :: s.grants } := by
  intro r owner d hd
  have hentry := hL.acquire_entry _ _ _ _ _ _ hgranted r
  have hfree := hL.acquire_free _ _ _ _ _ _ hread hgranted
  rw [List.mem_cons, h r owner d hd]
  show _ ↔ L.entry (L.acquire s.store s.clock readAt k token ttl).1 r = _
  rw [hentry]
  by_cases hr : r = L.slot k
  · subst hr
    have hold : ¬ L.entry s.store (L.slot k) = some (owner, d) := fun he =>
      absurd (hfree owner d he) (Nat.not_le_of_lt hd)
    simp [hold, eq_comm]
  · simp [hr]

/-! ## Runs -/

variable [DecidableEq τ]

def system (L : LeaseStore σ κ ρ τ) : System (LeaseState σ ρ τ) (LeaseCall κ τ) where
  step s
    | .wait d => some { s with clock := s.clock + d }
    | .acquire k token ttl readAt =>
      if readAt ≤ s.clock then
        let r := L.acquire s.store s.clock readAt k token ttl
        some { s with
          store := r.1
          grants := if r.2 = some true then
              (L.slot k, token, L.deadline s.clock readAt ttl) :: s.grants
            else s.grants }
      else none
    | .release k token => some { s with
        store := L.release s.store s.clock k token
        grants := s.grants.filter fun g => decide ¬(g.1 = L.slot k ∧ g.2.1 = token) }

theorem Agrees.release (hL : Lawful L) (h : Agrees L s) (k : κ) (token : τ) :
    Agrees L { s with
      store := L.release s.store s.clock k token
      grants := s.grants.filter fun g => decide ¬(g.1 = L.slot k ∧ g.2.1 = token) } := by
  intro r owner d hd
  rw [List.mem_filter, h r owner d hd]
  constructor
  · rintro ⟨hentry, hkept⟩
    exact hL.release_keeps _ _ _ _ _ _ _ hentry (of_decide_eq_true hkept)
  · intro hentry
    refine ⟨hL.release_adds _ _ _ _ _ _ hentry, ?_⟩
    have hnot : ¬ (r = L.slot k ∧ owner = token) := by
      rintro ⟨rfl, rfl⟩
      exact absurd (hL.release_frees _ _ _ _ _ hentry) (Nat.not_le_of_lt hd)
    exact decide_eq_true hnot

theorem Agrees.step (hL : Lawful L) (h : Agrees L s) {call : LeaseCall κ τ}
    (hs : L.system.step s call = some t) : Agrees L t := by
  cases call with
  | wait d =>
    cases hs
    exact fun r token d' hd => h r token d' (Nat.lt_of_le_of_lt (Nat.le_add_right _ _) hd)
  | acquire k token ttl readAt =>
    simp only [system] at hs
    split at hs
    · rename_i hread
      cases hs
      split
      · exact h.granted hL hread ‹_›
      · rw [hL.acquire_refused _ _ _ _ _ _ ‹_›]
        exact h
    · cases hs
  | release k token =>
    cases hs
    exact h.release hL k token

/-- **The invariant of every run.** -/
theorem agrees_of_reach (hL : Lawful L) {clock : Nat} {store : σ}
    (hempty : ∀ r, L.entry store r = none)
    (hr : L.system.Reach (fun _ _ => True) (LeaseState.start clock store) s) : Agrees L s := by
  refine hr.invariant (fun r token d _ => ?_) fun s call t h _ hs => h.step hL hs
  simp [LeaseState.start, hempty r]

/-! ## Exclusion -/

/-- Mutual exclusion in one state: a slot has one holder, nobody else is granted
it, and what follows leaves the holder its lease until the deadline, unless it is
a release under the holder's own token. -/
structure Excludes (L : LeaseStore σ κ ρ τ) (s : LeaseState σ ρ τ) : Prop where
  unique : ∀ r token token' d d', s.Holds r token d → s.Holds r token' d' → token = token'
  refuses : ∀ k owner d token ttl readAt, s.Holds (L.slot k) owner d → readAt ≤ s.clock →
    (L.acquire s.store s.clock readAt k token ttl).2 ≠ some true
  ends : ∀ r owner d call t, s.Holds r owner d → L.system.step s call = some t → t.clock < d →
    t.Holds r owner d ∨ ∃ k, L.slot k = r ∧ call = .release k owner

theorem Agrees.excludes (hL : Lawful L) (h : Agrees L s) : Excludes L s := by
  refine ⟨?_, ?_, ?_⟩
  · rintro r token token' d d' ⟨hmem, hd⟩ ⟨hmem', hd'⟩
    have hentry := (h r token d hd).mp hmem
    rw [(h r token' d' hd').mp hmem'] at hentry
    cases hentry
    rfl
  · rintro k owner d token ttl readAt ⟨hmem, hd⟩ hread hgranted
    have hle := hL.acquire_free _ _ _ _ _ _ hread hgranted owner d ((h _ _ _ hd).mp hmem)
    exact absurd hle (Nat.not_le_of_lt hd)
  · rintro r owner d call t ⟨hmem, hd⟩ hs ht
    cases call with
    | wait d' =>
      cases hs
      exact .inl ⟨hmem, ht⟩
    | acquire k token ttl readAt =>
      simp only [system] at hs
      split at hs
      · cases hs
        refine .inl ⟨?_, hd⟩
        show (r, owner, d) ∈ ite _ _ _
        split
        · exact List.mem_cons_of_mem _ hmem
        · exact hmem
      · cases hs
    | release k token =>
      cases hs
      by_cases hown : r = L.slot k ∧ owner = token
      · exact .inr ⟨k, hown.1.symm, by rw [hown.2]⟩
      · exact .inl ⟨List.mem_filter.mpr ⟨hmem, decide_eq_true hown⟩, hd⟩

end LeaseStore
end McpFramework.Lib
