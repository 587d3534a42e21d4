import McpFramework.Auth.Binding
import McpFramework.Lib.Transition

/-!
# Auth — BindingLifetime

How long an accepted claim keeps a session for its identity, over every timed
sequence of claims on one instance.

A claim past half-life rewrites the expiry, an earlier one does not, so what an
acceptance at `t` buys is the shorter of a full TTL and "half a TTL and the
instant after it" (`window`). `Owned` is the invariant: an identity owns a
session until a time that never moves back.
-/

namespace McpFramework.BindingLifetime

open Lib

/-- A claim that has returned. -/
structure Claim where
  session : String
  identity : String
  start : Nat
  finish : Nat
  accepted : Bool
deriving DecidableEq, Repr

/-- A spawned write-through that has not landed. -/
structure Write where
  session : String
  identity : String
  spawnedAt : Nat
deriving DecidableEq, Repr

/-- One instance and its backend; `log` has the newest claim first. -/
structure State where
  store : SessionBindings
  now : Nat
  writes : List Write
  log : List Claim

inductive Label where
  | tick (d : Nat)
  /-- A whole `claim`; `d` passes between its first and its last section. -/
  | claim (session identity : String) (d : Nat)
  /-- The `n`-th pending write-through lands. -/
  | land (n : Nat)
  /-- The backend drops a record. -/
  | lapse (session : String)

def afterClaim (st : State) (session identity : String) (d : Nat) : State :=
  let r := st.store.claim st.now (st.now + d) session identity
  { store := r.store
    now := st.now + d
    writes := if r.spawned then
        { session := session, identity := identity, spawnedAt := st.now + d } :: st.writes
      else st.writes
    log := { session := session, identity := identity, start := st.now,
             finish := r.decidedAt, accepted := r.accepted } :: st.log }

def step (st : State) : Label → Option State
  | .tick d => some { st with now := st.now + d }
  | .claim session identity d => some (afterClaim st session identity d)
  | .land n =>
    match st.writes[n]? with
    | some w =>
      some { st with
        store := st.store.writeThrough w.session w.identity
        writes := st.writes.eraseIdx n }
    | none => none
  | .lapse session => some { st with store := st.store.lapse session }

def system : System State Label := ⟨step⟩

/-- The runs looked at: no live entry is evicted for capacity, and a
write-through that lands does so before the TTL it carries is up. -/
def calm (st : State) : Label → Bool
  | .claim session _ d => st.store.hasRoom (st.now + d) session
  | .land n =>
    match st.writes[n]? with
    | some w => decide (st.now < w.spawnedAt + st.store.ttl)
    | none => true
  | _ => true

/-- A started instance: an empty table, over whatever was persisted before. -/
def init (ttl maxEntries now : Nat) (persistence : Option (HashMap String StoredBytes)) : State :=
  { store := { bindings := HashMap.empty, persistence := persistence, ttl := ttl,
               maxEntries := maxEntries },
    now := now, writes := [], log := [] }

/-- An accepted claim shuts every other identity out for `w`: a later claim
that starts within `w` of it is refused. -/
def Protects (w : Nat) (log : List Claim) : Prop :=
  log.Pairwise fun later earlier =>
    earlier.accepted = true → later.session = earlier.session →
      later.identity ≠ earlier.identity → later.start < earlier.finish + w →
        later.accepted = false

instance (w : Nat) (log : List Claim) : Decidable (Protects w log) :=
  inferInstanceAs (Decidable (List.Pairwise _ log))

/-- `t' < t + window ttl` says `t' < t + ttl` and `t' ≤ t + ttl / 2`. -/
def window (ttl : Nat) : Nat := min ttl (ttl / 2 + 1)

/-! ## Ownership -/

/-- Until `u`, a time not further away than a TTL, the table binds the session
to the identity, with an entry that lasts until `u`. -/
def Owned (st : State) (session identity : String) (u : Nat) : Prop :=
  u ≤ st.now + st.store.ttl ∧
    (st.now < u → ∃ e, st.store.bindings.get? session = some e ∧
      e.identity = identity ∧ u ≤ e.expiresAt)

/-- The backend does not contradict a live entry. -/
def Coherent (st : State) : Prop :=
  ∀ session e, st.store.bindings.get? session = some e → st.now < e.expiresAt →
    ∀ peer, st.store.load session = some peer → peer = e.identity

/-- What `claim` changes of the entry of its own session: nothing, or the entry
becomes the persisted identity's or, where none is readable, the caller's. -/
theorem claim_cases (b : SessionBindings) (now now' : Nat) (session identity : String) :
    (b.check now session identity = .refused ∧
        b.claim now now' session identity = ⟨b, false, now, false⟩) ∨
      (b.check now session identity = .accepted ∧
        b.claim now now' session identity = ⟨b, true, now, false⟩) ∨
      (b.check now session identity = .cold ∧ ∃ peer, b.load session = some peer ∧
        b.claim now now' session identity =
          ⟨b.remember now' session peer, peer == identity, now', false⟩) ∨
      (b.check now session identity = .cold ∧ b.load session = none ∧
        b.claim now now' session identity =
          ⟨b.remember now' session identity, true, now', b.persistence.isSome⟩) := by
  cases hc : b.check now session identity with
  | refused => simp [SessionBindings.claim, hc]
  | accepted => simp [SessionBindings.claim, hc]
  | cold =>
    cases hl : b.load session with
    | some peer => simp [SessionBindings.claim, hc, hl]
    | none => simp [SessionBindings.claim, hc, hl]

/-- An entry that is live when `remember` runs on another identity's behalf
stays, as long as the table has room: a claim of another session leaves it
alone, and of the same session only its owner gets as far as the cold path. -/
theorem Owned.claim {st : State} {s x : String} {u : Nat} (h : Owned st s x u)
    (hco : Coherent st) {session identity : String} {d : Nat}
    (hroom : st.store.hasRoom (st.now + d) session = true) :
    Owned (afterClaim st session identity d) s x u := by
  obtain ⟨hu, hown⟩ := h
  -- Whoever the entry becomes, it was already theirs.
  have hremember : ∀ y, (s = session → ∀ e, st.store.bindings.get? s = some e →
      st.now < e.expiresAt → y = e.identity) → st.now + d < u →
      ∃ e, (st.store.remember (st.now + d) session y).bindings.get? s = some e ∧
        e.identity = x ∧ u ≤ e.expiresAt := by
    intro y hy hlt
    obtain ⟨e, hget, hid, hexp⟩ := hown (by omega)
    by_cases hs : s = session
    · have hye := hy hs e hget (by omega)
      subst hs
      refine ⟨_, SessionBindings.remember_get?_self, ?_, ?_⟩
      · rw [hye, hid]
      · show u ≤ st.now + d + st.store.ttl
        omega
    · exact ⟨e, SessionBindings.remember_get?_live hroom hs hget (by omega), hid, hexp⟩
  rcases claim_cases st.store st.now (st.now + d) session identity with
    ⟨-, hr⟩ | ⟨-, hr⟩ | ⟨-, peer, hpeer, hr⟩ | ⟨hcold, -, hr⟩
  · refine ⟨?_, fun hlt => ?_⟩ <;> simp only [afterClaim, hr] at *
    · omega
    · exact hown (by omega)
  · refine ⟨?_, fun hlt => ?_⟩ <;> simp only [afterClaim, hr] at *
    · omega
    · exact hown (by omega)
  · refine ⟨?_, fun hlt => ?_⟩ <;> simp only [afterClaim, hr, SessionBindings.remember_ttl] at *
    · omega
    · exact hremember peer (fun hs e he hl => hco s e he hl peer (hs ▸ hpeer)) hlt
  · refine ⟨?_, fun hlt => ?_⟩ <;> simp only [afterClaim, hr, SessionBindings.remember_ttl] at *
    · omega
    · refine hremember identity (fun hs e he hl => ?_) hlt
      by_contra hne
      have : st.store.check st.now session identity = .refused :=
        SessionBindings.check_eq_refused_iff.mpr ⟨e, hs ▸ he, hl, fun hid => hne hid.symm⟩
      rw [hcold] at this
      cases this

/-- Ownership only needs the table, and time to pass. -/
theorem Owned.of_bindings_eq {st st' : State} {s x : String} {u : Nat} (h : Owned st s x u)
    (hb : st'.store.bindings = st.store.bindings) (ht : st'.store.ttl = st.store.ttl)
    (hn : st.now ≤ st'.now) : Owned st' s x u := by
  obtain ⟨hu, hown⟩ := h
  refine ⟨by omega, fun hlt => ?_⟩
  rw [hb]
  exact hown (by omega)

/-! ## The invariant -/

/-- A pending write-through belongs to the owner, an accepted claim made its
identity the owner, and the backend agrees with the table. -/
structure Inv (st : State) : Prop where
  coherent : Coherent st
  writes : ∀ w ∈ st.writes, Owned st w.session w.identity (w.spawnedAt + st.store.ttl)
  claims : ∀ c ∈ st.log, c.accepted = true →
    Owned st c.session c.identity (c.finish + window st.store.ttl)
  protects : Protects (window st.store.ttl) st.log

theorem window_le (ttl : Nat) : window ttl ≤ ttl := Nat.min_le_left _ _

theorem afterClaim_ttl (st : State) (session identity : String) (d : Nat) :
    (afterClaim st session identity d).store.ttl = st.store.ttl := by
  rcases claim_cases st.store st.now (st.now + d) session identity with
    ⟨-, hr⟩ | ⟨-, hr⟩ | ⟨-, peer, -, hr⟩ | ⟨-, -, hr⟩ <;> simp [afterClaim, hr]

theorem Coherent.claim {st : State} (hco : Coherent st) (session identity : String) (d : Nat) :
    Coherent (afterClaim st session identity d) := by
  have hremember : ∀ y, (∀ peer, st.store.load session = some peer → peer = y) →
      ∀ s e, (st.store.remember (st.now + d) session y).bindings.get? s = some e →
        st.now + d < e.expiresAt → ∀ peer, st.store.load s = some peer → peer = e.identity := by
    intro y hy s e hget hlive peer hpeer
    by_cases hs : s = session
    · subst hs
      rw [SessionBindings.remember_get?_self] at hget
      cases hget
      exact hy peer hpeer
    · exact hco s e (SessionBindings.remember_get?_some hs hget) (by omega) peer hpeer
  rcases claim_cases st.store st.now (st.now + d) session identity with
    ⟨-, hr⟩ | ⟨-, hr⟩ | ⟨-, peer, hpeer, hr⟩ | ⟨-, hnone, hr⟩ <;>
    intro s e hget hlive p hp <;>
    simp only [afterClaim, hr, SessionBindings.load_remember] at hget hlive hp
  · exact hco s e hget (by omega) p hp
  · exact hco s e hget (by omega) p hp
  · exact hremember peer (fun q hq => by rw [hpeer] at hq; exact (Option.some.inj hq).symm)
      s e hget hlive p hp
  · exact hremember identity (fun q hq => by rw [hnone] at hq; cases hq) s e hget hlive p hp

/-- An accepted claim makes its identity the owner for the window. -/
theorem accepted_owned {st : State} {session identity : String} {d : Nat}
    (hacc : (st.store.claim st.now (st.now + d) session identity).accepted = true) :
    Owned (afterClaim st session identity d) session identity
      ((st.store.claim st.now (st.now + d) session identity).decidedAt +
        window st.store.ttl) := by
  have hw := window_le st.store.ttl
  have hhalf : window st.store.ttl ≤ st.store.ttl / 2 + 1 := Nat.min_le_right _ _
  have hremember : ∀ y, y = identity →
      ∃ e, (st.store.remember (st.now + d) session y).bindings.get? session = some e ∧
        e.identity = identity ∧ st.now + d + window st.store.ttl ≤ e.expiresAt := by
    rintro y rfl
    refine ⟨_, SessionBindings.remember_get?_self, rfl, ?_⟩
    show _ ≤ st.now + d + st.store.ttl
    omega
  rcases claim_cases st.store st.now (st.now + d) session identity with
    ⟨-, hr⟩ | ⟨hc, hr⟩ | ⟨-, peer, hpeer, hr⟩ | ⟨-, -, hr⟩
  · simp [hr] at hacc
  · obtain ⟨e, hget, hid, hexp⟩ := SessionBindings.check_eq_accepted_iff.mp hc
    refine ⟨?_, fun _ => ?_⟩ <;> simp only [afterClaim, hr]
    · omega
    · exact ⟨e, hget, hid, by omega⟩
  · rw [hr] at hacc
    have hid : peer = identity := by simpa using hacc
    refine ⟨?_, fun _ => ?_⟩ <;> simp only [afterClaim, hr, SessionBindings.remember_ttl]
    · omega
    · exact hremember peer hid
  · refine ⟨?_, fun _ => ?_⟩ <;> simp only [afterClaim, hr, SessionBindings.remember_ttl]
    · omega
    · exact hremember identity rfl

/-- A claim against the owner is refused. -/
theorem Owned.refuses {st : State} {s x : String} {u : Nat} (h : Owned st s x u)
    (hlt : st.now < u) {identity : String} (hne : identity ≠ x) (now' : Nat) :
    (st.store.claim st.now now' s identity).accepted = false := by
  obtain ⟨e, hget, hid, hexp⟩ := h.2 hlt
  have hc : st.store.check st.now s identity = .refused :=
    SessionBindings.check_eq_refused_iff.mpr
      ⟨e, hget, by omega, fun he => hne (by rw [← hid, he])⟩
  simp [SessionBindings.claim, hc]

theorem Inv.claim {st : State} (hi : Inv st) {session identity : String} {d : Nat}
    (hroom : st.store.hasRoom (st.now + d) session = true) :
    Inv (afterClaim st session identity d) := by
  have httl := afterClaim_ttl st session identity d
  refine ⟨hi.coherent.claim session identity d, ?_, ?_, ?_⟩
  · rw [httl]
    have hold : ∀ w ∈ st.writes, Owned (afterClaim st session identity d) w.session w.identity
        (w.spawnedAt + st.store.ttl) :=
      fun w hw => (hi.writes w hw).claim hi.coherent hroom
    intro w hw
    rcases claim_cases st.store st.now (st.now + d) session identity with
      ⟨-, hr⟩ | ⟨-, hr⟩ | ⟨-, peer, -, hr⟩ | ⟨-, -, hr⟩
    · exact hold w (by simpa [afterClaim, hr] using hw)
    · exact hold w (by simpa [afterClaim, hr] using hw)
    · exact hold w (by simpa [afterClaim, hr] using hw)
    · by_cases hmem : w ∈ st.writes
      · exact hold w hmem
      · have hnew : w = { session := session, identity := identity, spawnedAt := st.now + d } := by
          simp only [afterClaim, hr] at hw
          split at hw
          · exact (List.mem_cons.mp hw).resolve_right hmem
          · exact absurd hw hmem
        subst hnew
        refine ⟨?_, fun _ => ?_⟩ <;> simp only [afterClaim, hr, SessionBindings.remember_ttl]
        · omega
        · exact ⟨_, SessionBindings.remember_get?_self, rfl, Nat.le_refl _⟩
  · rw [httl]
    intro c hc hacc
    rcases List.mem_cons.mp hc with rfl | hc
    · exact accepted_owned hacc
    · exact (hi.claims c hc hacc).claim hi.coherent hroom
  · rw [httl]
    refine List.pairwise_cons.mpr ⟨?_, hi.protects⟩
    intro earlier hmem hacc hsess hne hlt
    have howned := hi.claims earlier hmem hacc
    rw [← hsess] at howned
    exact howned.refuses hlt hne _

theorem Inv.step {st st' : State} {l : Label} (hi : Inv st) (hc : calm st l = true)
    (hs : step st l = some st') : Inv st' := by
  cases l with
  | tick d =>
    cases hs
    have hown : ∀ {s x u}, Owned st s x u → Owned { st with now := st.now + d } s x u :=
      fun h => h.of_bindings_eq rfl rfl (Nat.le_add_right _ _)
    refine ⟨?_, fun w hw => hown (hi.writes w hw),
      fun c hc hacc => hown (hi.claims c hc hacc), hi.protects⟩
    intro s e hget hlive
    exact hi.coherent s e hget (Nat.lt_of_le_of_lt (Nat.le_add_right _ d) hlive)
  | claim session identity d =>
    cases hs
    exact hi.claim hc
  | land n =>
    simp only [BindingLifetime.step] at hs
    cases hw : st.writes[n]? with
    | none => simp [hw] at hs
    | some w =>
      simp only [hw, Option.some.injEq] at hs
      subst hs
      have hmem := List.mem_of_getElem? hw
      have hlt : st.now < w.spawnedAt + st.store.ttl := by simpa [calm, hw] using hc
      refine ⟨?_, fun w' hw' => (hi.writes w' (List.mem_of_mem_eraseIdx hw')).of_bindings_eq
        rfl rfl (Nat.le_refl _), fun c hc hacc => (hi.claims c hc hacc).of_bindings_eq
        rfl rfl (Nat.le_refl _), hi.protects⟩
      intro s e hget hlive peer hpeer
      simp only [SessionBindings.load_writeThrough] at hpeer
      split at hpeer
      · rename_i hs
        -- The write lands while its identity owns the session.
        obtain ⟨e', hget', hid, -⟩ := (hi.writes w hmem).2 hlt
        rw [← hs.1] at hget'
        have : e' = e := Option.some.inj (hget'.symm.trans hget)
        rw [← this, hid]
        exact (Option.some.inj hpeer).symm
      · exact hi.coherent s e hget hlive peer hpeer
  | lapse session =>
    cases hs
    refine ⟨?_, fun w hw => (hi.writes w hw).of_bindings_eq rfl rfl (Nat.le_refl _),
      fun c hc hacc => (hi.claims c hc hacc).of_bindings_eq rfl rfl (Nat.le_refl _),
      hi.protects⟩
    intro s e hget hlive peer hpeer
    exact hi.coherent s e hget hlive peer (SessionBindings.load_lapse_some hpeer)

theorem inv_init (ttl maxEntries now : Nat) (persistence : Option (HashMap String StoredBytes)) :
    Inv (init ttl maxEntries now persistence) := by
  refine ⟨?_, ?_, ?_, .nil⟩
  · intro s e hget
    simp [init] at hget
  · intro w hw
    simp [init] at hw
  · intro c hc
    simp [init] at hc

end McpFramework.BindingLifetime
