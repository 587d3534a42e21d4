import McpFramework.Auth.BindingLifetime
import McpFramework.Lib.Eviction

/-!
# Auth — BindingTable

How many sessions the table of bindings holds (`auth/binding.rs`), and what it gives
up for a new one. `remember` first drops the dead entries of a full table and then,
while it is full, the entry that is closest to expiring.

A map is iterated in no particular order, so of several entries that expire at one
time any may go: `Remembers` allows each of them, and `remember` takes the first.
-/

namespace McpFramework.SessionBindings

open Lib HashMap Relation

/-! ## Calls -/

/-- The entries that have not expired. -/
def live (b : SessionBindings) (now : Nat) : HashMap String Binding :=
  b.bindings.retain fun _ binding => binding.expiresAt > now

/-- What making room for a session can leave of the table. -/
def MakesRoom (b : SessionBindings) (now : Nat) (sessionId : String)
    (room : HashMap String Binding) : Prop :=
  if b.bindings.len ≥ b.maxEntries ∧ b.bindings.containsKey sessionId = false then
    Settles Binding.expiresAt b.maxEntries (b.live now) room
  else room = b.bindings

/-- What a call of `remember` can leave behind. -/
def Remembers (b : SessionBindings) (now : Nat) (sessionId identity : String)
    (b' : SessionBindings) : Prop :=
  ∃ room, b.MakesRoom now sessionId room ∧ b' = { b with
    bindings := room.insert sessionId { identity := identity, expiresAt := now + b.ttl } }

/-- Some call of `remember`. -/
def Call (b b' : SessionBindings) : Prop :=
  ∃ now sessionId identity, b.Remembers now sessionId identity b'

/-- An instance before its first call. -/
def start (ttl maxEntries : Nat) (persistence : Option (HashMap String StoredBytes)) :
    SessionBindings :=
  { bindings := HashMap.empty, persistence := persistence, ttl := ttl, maxEntries := maxEntries }

variable {b b' : SessionBindings} {now : Nat} {sessionId identity : String}
  {room : HashMap String Binding}

/-- As many rounds as there are entries are enough: the loop ends by its own test. -/
theorem evict_settles {maxEntries fuel : Nat} {m : HashMap String Binding} (h : m.len ≤ fuel) :
    Settles Binding.expiresAt maxEntries m (evict maxEntries fuel m) := by
  induction fuel generalizing m with
  | zero => exact .of_empty (Nat.le_zero.mp h)
  | succ fuel ih =>
    unfold evict
    by_cases hfull : m.len ≥ maxEntries
    · rw [if_pos hfull]
      cases hmin : m.entries.argmin fun e => e.2.expiresAt with
      | none =>
        rw [oldest, hmin]
        rw [List.argmin_eq_none] at hmin
        exact .of_empty (List.length_eq_zero_iff.mpr hmin)
      | some e =>
        rw [oldest, hmin]
        have hround : Evicts Binding.expiresAt maxEntries m (m.remove e.1) :=
          ⟨hfull, e.1, e.2, least_of_argmin hmin, rfl⟩
        have hlen := hround.len
        exact .head hround (ih (by omega))
    · rw [if_neg hfull]
      exact .refl (Nat.lt_of_not_le hfull)

theorem remembers_remember (b : SessionBindings) (now : Nat) (sessionId identity : String) :
    b.Remembers now sessionId identity (b.remember now sessionId identity) := by
  refine ⟨b.makeRoom now sessionId, ?_, rfl⟩
  unfold MakesRoom makeRoom
  split
  · exact evict_settles (Nat.le_refl _)
  · rfl

/-! ## One call -/

/-- The table is full of live entries, the session is new to it, and no entry expires
before the victim. -/
structure Pressed (b : SessionBindings) (now : Nat) (sessionId : String) (victim : Binding) :
    Prop where
  fresh : b.bindings.containsKey sessionId = false
  full : b.bindings.len = b.maxEntries
  live : ∀ s e, b.bindings.get? s = some e → now < e.expiresAt
  first : ∀ s e, b.bindings.get? s = some e → victim.expiresAt ≤ e.expiresAt

theorem get?_live (b : SessionBindings) (now : Nat) (s : String) :
    (b.live now).get? s = (b.bindings.get? s).filter fun e => decide (e.expiresAt > now) :=
  get?_retain _ _ _

/-- There is room for the session, or the dead entries go and make some, or one live
entry goes. -/
theorem MakesRoom.cases (hcap : 1 ≤ b.maxEntries) (hle : b.bindings.len ≤ b.maxEntries)
    (h : b.MakesRoom now sessionId room) :
    room = b.bindings ∧
        (b.bindings.containsKey sessionId = true ∨ b.bindings.len < b.maxEntries) ∨
      room = b.live now ∧ room.len < b.maxEntries ∨
      ∃ s victim, b.bindings.get? s = some victim ∧ b.Pressed now sessionId victim ∧
        room = b.bindings.remove s := by
  unfold MakesRoom at h
  split at h
  · rename_i hfull
    have hlive : (b.live now).len ≤ b.bindings.len := len_retain_le _ _
    rcases h.cases hcap (Nat.le_trans hlive hle) with ⟨rfl, hroom⟩ | ⟨hlen, s, victim, hleast, rfl⟩
    · exact .inr (.inl ⟨rfl, hroom⟩)
    · have hsame : b.live now = b.bindings := retain_eq_self_of_len (by
        show (b.live now).len = b.bindings.len
        omega)
      rw [hsame] at hleast
      refine .inr (.inr ⟨s, victim, hleast.entry, ⟨hfull.2, by omega, fun s' e he => ?_,
        hleast.least⟩, by rw [hsame]⟩)
      have hkept : (b.live now).get? s' = some e := by
        rw [hsame]
        exact he
      rw [get?_live, Option.filter_eq_some_iff] at hkept
      exact of_decide_eq_true hkept.2
  · rename_i hroom
    refine .inl ⟨h, ?_⟩
    by_cases hknown : b.bindings.containsKey sessionId = true
    · exact .inl hknown
    · refine .inr (Nat.lt_of_not_le fun hfull => hroom ⟨hfull, ?_⟩)
      exact Bool.not_eq_true _ ▸ hknown

theorem Remembers.len (hcap : 1 ≤ b.maxEntries) (hle : b.bindings.len ≤ b.maxEntries)
    (h : b.Remembers now sessionId identity b') : b'.bindings.len ≤ b.maxEntries := by
  obtain ⟨room, hroom, rfl⟩ := h
  show (room.insert _ _).len ≤ _
  rw [len_insert]
  rcases hroom.cases hcap hle with ⟨rfl, hknown | hbelow⟩ | ⟨-, hbelow⟩ |
    ⟨s, victim, hentry, hpressed, rfl⟩
  · rw [if_pos hknown]
    exact hle
  · split
    · exact hle
    · exact hbelow
  · split
    · exact Nat.le_of_lt hbelow
    · exact hbelow
  · have hlen := len_remove hentry
    split
    · omega
    · omega

/-- A live entry goes only under pressure, and no other goes with it. -/
theorem Remembers.evicted (hcap : 1 ≤ b.maxEntries) (hle : b.bindings.len ≤ b.maxEntries)
    (h : b.Remembers now sessionId identity b') {s : String} {e : Binding}
    (he : b.bindings.get? s = some e) (hlive : now < e.expiresAt)
    (hgone : b'.bindings.get? s = none) :
    b.Pressed now sessionId e ∧
      ∀ s' e', s' ≠ s → b.bindings.get? s' = some e' → b'.bindings.get? s' = some e' := by
  obtain ⟨room, hroom, rfl⟩ := h
  have hgone : room.get? s = none := by
    change (room.insert _ _).get? s = none at hgone
    rw [get?_insert] at hgone
    split at hgone
    · cases hgone
    · exact hgone
  rcases hroom.cases hcap hle with ⟨rfl, -⟩ | ⟨rfl, -⟩ | ⟨victimId, victim, hentry, hpressed, rfl⟩
  · cases he.symm.trans hgone
  · have hkept : (b.live now).get? s = some e := by
      rw [get?_live, he, Option.filter_some, if_pos (decide_eq_true hlive)]
    cases hkept.symm.trans hgone
  · rw [get?_remove] at hgone
    split at hgone
    · subst s
      cases he.symm.trans hentry
      refine ⟨hpressed, fun s' e' hne he' => ?_⟩
      have hother : s' ≠ sessionId := by
        rintro rfl
        rw [get?_eq_none_of_containsKey hpressed.fresh] at he'
        cases he'
      show ((b.bindings.remove victimId).insert _ _).get? s' = some e'
      rw [get?_insert_of_ne _ _ hother, get?_remove, if_neg hne]
      exact he'
    · cases he.symm.trans hgone

/-! ## Runs -/

theorem bounded_of_calls {b₀ : SessionBindings} (hcap : 1 ≤ b₀.maxEntries)
    (hle : b₀.bindings.len ≤ b₀.maxEntries) (h : ReflTransGen Call b₀ b) :
    b.maxEntries = b₀.maxEntries ∧ b.bindings.len ≤ b₀.maxEntries := by
  induction h with
  | refl => exact ⟨rfl, hle⟩
  | tail _ hcall ih =>
    obtain ⟨now, sessionId, identity, hremembers⟩ := hcall
    obtain ⟨hmax, hlen⟩ := ih
    rw [← hmax] at hcap hlen ⊢
    refine ⟨?_, hremembers.len hcap hlen⟩
    obtain ⟨room, -, rfl⟩ := hremembers
    rfl

/-- The table of an instance whose claims come in any order, with write-throughs in
between. -/
theorem bounded_of_claims {ttl maxEntries now : Nat}
    {persistence : Option (HashMap String StoredBytes)} {st : BindingLifetime.State}
    (hcap : 1 ≤ maxEntries)
    (hr : BindingLifetime.system.Reach (fun _ _ => True)
      (BindingLifetime.init ttl maxEntries now persistence) st) :
    st.store.maxEntries = maxEntries ∧ st.store.bindings.len ≤ maxEntries := by
  refine hr.invariant (I := fun st => st.store.maxEntries = maxEntries ∧
    st.store.bindings.len ≤ maxEntries) ⟨rfl, Nat.zero_le _⟩ ?_
  rintro st l st' ⟨hmax, hlen⟩ - hs
  cases l with
  | tick _ | lapse _ =>
    cases hs
    exact ⟨hmax, hlen⟩
  | claim session identity d =>
    cases hs
    rw [← hmax] at hcap hlen ⊢
    have hremember : ∀ y, (st.store.remember (st.now + d) session y).bindings.len ≤
        st.store.maxEntries := fun y => (remembers_remember _ _ _ _).len hcap hlen
    show (st.store.claim st.now (st.now + d) session identity).store.maxEntries = _ ∧
      (st.store.claim st.now (st.now + d) session identity).store.bindings.len ≤ _
    rcases BindingLifetime.claim_cases st.store st.now (st.now + d) session identity with
      ⟨-, heq⟩ | ⟨-, heq⟩ | ⟨-, peer, -, heq⟩ | ⟨-, -, heq⟩
    · rw [heq]
      exact ⟨rfl, hlen⟩
    · rw [heq]
      exact ⟨rfl, hlen⟩
    · rw [heq]
      exact ⟨rfl, hremember peer⟩
    · rw [heq]
      exact ⟨rfl, hremember identity⟩
  | land n =>
    simp only [BindingLifetime.system, BindingLifetime.step] at hs
    split at hs <;> cases hs
    exact ⟨hmax, hlen⟩

/-- **Bounded, and evicting only under pressure.** After any calls of `remember`, at
any times, the table is within its cap. The eviction loop ends, whatever the order
of iteration, and a call takes a live entry only from a table full of live ones, for
a new session: an entry that none expires before, and no other. -/
theorem table_bounded {ttl maxEntries : Nat} {persistence : Option (HashMap String StoredBytes)}
    (hcap : 1 ≤ maxEntries) (hrun : ReflTransGen Call (start ttl maxEntries persistence) b) :
    b.bindings.len ≤ maxEntries ∧
    (WellFounded fun m' m : HashMap String Binding => Evicts Binding.expiresAt b.maxEntries m m') ∧
    ∀ now sessionId identity,
      b.Remembers now sessionId identity (b.remember now sessionId identity) ∧
      ∀ b', b.Remembers now sessionId identity b' → ∀ s e, b.bindings.get? s = some e →
        now < e.expiresAt → b'.bindings.get? s = none →
          b.Pressed now sessionId e ∧
            ∀ s' e', s' ≠ s → b.bindings.get? s' = some e' → b'.bindings.get? s' = some e' := by
  obtain ⟨hmax, hlen⟩ := bounded_of_calls hcap (Nat.zero_le _) hrun
  change b.maxEntries = maxEntries at hmax
  change b.bindings.len ≤ maxEntries at hlen
  refine ⟨hlen, evicts_wellFounded _ _, fun now sessionId identity =>
    ⟨remembers_remember b now sessionId identity, fun b' h s e he hlive hgone => ?_⟩⟩
  exact h.evicted (hmax ▸ hcap) (hmax ▸ hlen) he hlive hgone

/-- Three sessions on an instance with room for two. -/
theorem two_of_three_sessions :
    ((((start 60 2 none).remember 0 "a" "alice").remember 1 "b" "bob").remember 2 "c"
      "carol").bindings.len ≤ 2 :=
  (@table_bounded _ 60 2 none (by decide)
    (.tail (.tail (.single ⟨0, "a", "alice", remembers_remember ..⟩)
      ⟨1, "b", "bob", remembers_remember ..⟩) ⟨2, "c", "carol", remembers_remember ..⟩)).1

end McpFramework.SessionBindings
