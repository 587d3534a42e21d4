import Mathlib.Data.List.MinMax
import McpFramework.Core.Time
import McpFramework.Lib.HashMap

/-!
# Auth — Binding

The table that binds a protocol session to the identity that opened it
(`auth/binding.rs`), cut at the places where `claim` awaits: the check under
the read lock, the read of the backend, and `remember` under the write lock.
-/

namespace McpFramework

open Lib

structure Binding where
  identity : String
  expiresAt : Nat
deriving DecidableEq, Repr

/-- Persisted bytes, as far as `String::from_utf8` tells them apart. -/
inductive StoredBytes where
  | utf8 (s : String)
  | invalid
deriving DecidableEq, Repr

/-- Protocol session id → the verified identity that opened it. Of the
backend it holds namespace `session_binding`, when a backend is attached. -/
structure SessionBindings where
  bindings : HashMap String Binding
  persistence : Option (HashMap String StoredBytes)
  ttl : Nat
  maxEntries : Nat
deriving DecidableEq

namespace SessionBindings

def new (ttl : Nat) : SessionBindings :=
  { bindings := HashMap.empty, persistence := none, ttl := ttl,
    maxEntries := SESSION_BINDING_MAX_ENTRIES }

def setPersistence (b : SessionBindings) (backend : HashMap String StoredBytes) : SessionBindings :=
  { b with persistence := some backend }

/-! ## The sections of `claim` -/

/-- Where the hot path leaves a claim. -/
inductive Hot where
  | refused
  | accepted
  | cold
deriving DecidableEq, Repr

/-- The hot path: what the read lock section decides from the table alone. An
entry is only extended past its half-life, by falling through to the cold
path. -/
def check (b : SessionBindings) (now : Nat) (sessionId identity : String) : Hot :=
  match b.bindings.get? sessionId with
  | some existing =>
    if existing.expiresAt > now then
      if existing.identity ≠ identity then .refused
      else if existing.expiresAt - now > b.ttl / 2 then .accepted
      else .cold
    else .cold
  | none => .cold

/-- The cold path's read: the identity a peer persisted. StoredBytes that are no
string are discarded, as an absent record is. -/
def load (b : SessionBindings) (sessionId : String) : Option String :=
  match b.persistence with
  | some backend =>
    match backend.get? sessionId with
    | some (.utf8 peerIdentity) => some peerIdentity
    | some .invalid => none
    | none => none
  | none => none

/-- `min_by_key` over the expiry. -/
def oldest (m : HashMap String Binding) : Option String :=
  (m.entries.argmin fun e => e.2.expiresAt).map (·.1)

/-- The `while` loop of `remember`. A round removes an entry, so the number of
entries bounds the rounds. -/
def evict (maxEntries : Nat) : Nat → HashMap String Binding → HashMap String Binding
  | 0, m => m
  | fuel + 1, m =>
    if m.len ≥ maxEntries then
      match oldest m with
      | some victim => evict maxEntries fuel (m.remove victim)
      | none => m
    else m

/-- The part of `remember` that keeps the table bounded. -/
def makeRoom (b : SessionBindings) (now : Nat) (sessionId : String) :
    HashMap String Binding :=
  if b.bindings.len ≥ b.maxEntries ∧ b.bindings.containsKey sessionId = false then
    let live := b.bindings.retain fun _ binding => binding.expiresAt > now
    evict b.maxEntries live.len live
  else b.bindings

/-- Insert or refresh an entry, keeping the map bounded. -/
def remember (b : SessionBindings) (now : Nat) (sessionId identity : String) :
    SessionBindings :=
  { b with
    bindings := (b.makeRoom now sessionId).insert sessionId
      { identity := identity, expiresAt := now + b.ttl } }

/-- What the task spawned by a claim does to the backend. -/
def writeThrough (b : SessionBindings) (sessionId identity : String) : SessionBindings :=
  { b with persistence := b.persistence.map (·.insert sessionId (.utf8 identity)) }

/-- The backend drops a record whose own TTL is up. -/
def lapse (b : SessionBindings) (sessionId : String) : SessionBindings :=
  { b with persistence := b.persistence.map (·.remove sessionId) }

/-- What a whole `claim` leaves behind: the table, the answer, the time of the
section that decided it, and whether a write-through was spawned. -/
structure Claimed where
  store : SessionBindings
  accepted : Bool
  decidedAt : Nat
  spawned : Bool

/-- `SessionBindings::claim` without another call in between. `now` is the
clock it starts at and `now'` the one `remember` reads. -/
def claim (b : SessionBindings) (now now' : Nat) (sessionId identity : String) : Claimed :=
  match b.check now sessionId identity with
  | .refused => ⟨b, false, now, false⟩
  | .accepted => ⟨b, true, now, false⟩
  | .cold =>
    match b.load sessionId with
    | some peerIdentity =>
      ⟨b.remember now' sessionId peerIdentity, peerIdentity == identity, now', false⟩
    | none => ⟨b.remember now' sessionId identity, true, now', b.persistence.isSome⟩

/-- `remember` evicts no live entry. -/
def hasRoom (b : SessionBindings) (now : Nat) (sessionId : String) : Bool :=
  b.bindings.containsKey sessionId ||
    decide ((b.bindings.retain fun _ binding => binding.expiresAt > now).len < b.maxEntries)

/-! ## What each section does -/

variable {b : SessionBindings} {now : Nat} {sessionId identity : String}

/-- A live binding of somebody else is the only reason for a refusal. -/
theorem check_eq_refused_iff :
    b.check now sessionId identity = .refused ↔
      ∃ e, b.bindings.get? sessionId = some e ∧ now < e.expiresAt ∧ e.identity ≠ identity := by
  unfold check
  cases h : b.bindings.get? sessionId with
  | none => simp
  | some e =>
    simp only [Option.some.injEq, exists_eq_left']
    by_cases hl : now < e.expiresAt
    · by_cases hi : e.identity = identity
      · simp only [gt_iff_lt, hl, if_true, hi, ne_eq, not_true_eq_false, if_false, and_false,
          iff_false]
        split <;> simp
      · simp [hl, hi]
    · simp [hl]

theorem check_eq_accepted_iff :
    b.check now sessionId identity = .accepted ↔
      ∃ e, b.bindings.get? sessionId = some e ∧ e.identity = identity ∧
        now + b.ttl / 2 < e.expiresAt := by
  unfold check
  cases h : b.bindings.get? sessionId with
  | none => simp
  | some e =>
    simp only [Option.some.injEq, exists_eq_left']
    by_cases hl : now < e.expiresAt
    · by_cases hi : e.identity = identity
      · by_cases hh : b.ttl / 2 < e.expiresAt - now
        · have : now + b.ttl / 2 < e.expiresAt := by omega
          simp [hl, hi, hh, this]
        · have : ¬ now + b.ttl / 2 < e.expiresAt := by omega
          simp [hl, hi, hh, this]
      · simp [hl, hi]
    · have : ¬ now + b.ttl / 2 < e.expiresAt := by omega
      simp [hl, this]

@[simp] theorem remember_ttl : (b.remember now sessionId identity).ttl = b.ttl := rfl

@[simp] theorem load_remember (s : String) :
    (b.remember now sessionId identity).load s = b.load s := rfl

@[simp] theorem remember_get?_self :
    (b.remember now sessionId identity).bindings.get? sessionId =
      some { identity := identity, expiresAt := now + b.ttl } := by
  simp [remember]

/-- With room in the table, making room drops dead entries only. -/
theorem makeRoom_get?_live (hroom : b.hasRoom now sessionId = true) {s : String} {e : Binding}
    (h : b.bindings.get? s = some e) (hlive : now < e.expiresAt) :
    (b.makeRoom now sessionId).get? s = some e := by
  unfold makeRoom
  split
  · rename_i hfull
    have hlt : (b.bindings.retain fun _ binding => binding.expiresAt > now).len < b.maxEntries := by
      simpa [hasRoom, hfull.2] using hroom
    have hkeep : (b.bindings.retain fun _ binding => binding.expiresAt > now).get? s = some e := by
      simp [HashMap.get?_retain, h, hlive]
    show (evict _ _ _).get? s = some e
    cases hn : (b.bindings.retain fun _ binding => binding.expiresAt > now).len with
    | zero => simpa [evict] using hkeep
    | succ n =>
      rw [hn] at hlt
      simpa [evict, hn, Nat.not_le_of_lt hlt] using hkeep
  · exact h

theorem evict_get?_some (n : Nat) :
    ∀ (fuel : Nat) (m : HashMap String Binding) {s : String} {e : Binding},
      (evict n fuel m).get? s = some e → m.get? s = some e
  | 0, _, _, _, h => h
  | fuel + 1, m, s, e, h => by
    unfold evict at h
    split at h
    · split at h
      · have := evict_get?_some n fuel _ h
        rw [HashMap.get?_remove] at this
        split at this
        · cases this
        · exact this
      · exact h
    · exact h

/-- Making room adds nothing. -/
theorem makeRoom_get?_some {s : String} {e : Binding}
    (h : (b.makeRoom now sessionId).get? s = some e) : b.bindings.get? s = some e := by
  unfold makeRoom at h
  split at h
  · have := evict_get?_some _ _ _ h
    rw [HashMap.get?_retain, Option.filter_eq_some_iff] at this
    exact this.1
  · exact h

theorem remember_get?_live (hroom : b.hasRoom now sessionId = true) {s : String} {e : Binding}
    (hne : s ≠ sessionId) (h : b.bindings.get? s = some e) (hlive : now < e.expiresAt) :
    (b.remember now sessionId identity).bindings.get? s = some e := by
  simp only [remember]
  rw [HashMap.get?_insert_of_ne _ _ hne]
  exact makeRoom_get?_live hroom h hlive

theorem remember_get?_some {s : String} {e : Binding} (hne : s ≠ sessionId)
    (h : (b.remember now sessionId identity).bindings.get? s = some e) :
    b.bindings.get? s = some e := by
  simp only [remember] at h
  rw [HashMap.get?_insert_of_ne _ _ hne] at h
  exact makeRoom_get?_some h

theorem load_writeThrough (s : String) :
    (b.writeThrough sessionId identity).load s =
      if s = sessionId ∧ b.persistence.isSome then some identity else b.load s := by
  cases hp : b.persistence with
  | none => simp [load, writeThrough, hp]
  | some backend =>
    by_cases hs : s = sessionId
    · subst hs
      simp [load, writeThrough, hp]
    · simp [load, writeThrough, hp, hs, HashMap.get?_insert]

theorem load_lapse_some {s peer : String} (h : (b.lapse sessionId).load s = some peer) :
    b.load s = some peer := by
  cases hp : b.persistence with
  | none => simp [load, lapse, hp] at h
  | some backend =>
    by_cases hs : s = sessionId
    · subst hs
      simp [load, lapse, hp] at h
    · simpa [load, lapse, hp, hs, HashMap.get?_remove] using h

end SessionBindings
end McpFramework
