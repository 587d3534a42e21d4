import McpFramework.Core.Time

/-!
# Persistence — Lock

One lock of a backend: `try_acquire_lock` and `release_lock` on one key. The
in-memory table and Redis (`SET NX PX`, compare-and-delete) agree on it: a lock
is held under a token until it is released under that token or expires.
-/

namespace McpFramework

/-- The token a lock is held under, and its expiry. -/
abbrev LockEntry (τ : Type*) := τ × Nat

variable {τ : Type*}

/-- The lock after an attempt, and whether it was granted. -/
def tryAcquireLock (held : Option (LockEntry τ)) (now : Nat) (token : τ) (ttl : Nat) :
    Option (LockEntry τ) × Bool :=
  match held with
  | some (owner, expiry) =>
    if expiry > now then (some (owner, expiry), false) else (some (token, now + ttl), true)
  | none => (some (token, now + ttl), true)

/-- Compare-and-delete: only release if we still hold it under our token. -/
def releaseLock [DecidableEq τ] (held : Option (LockEntry τ)) (token : τ) :
    Option (LockEntry τ) :=
  match held with
  | some (owner, expiry) => if owner = token then none else some (owner, expiry)
  | none => none

/-- A lock that was taken and not released has run out. -/
def lapsed (held : Option (LockEntry τ)) (now : Nat) : Bool :=
  match held with
  | some (_, expiry) => decide (expiry ≤ now)
  | none => false

variable {held : Option (LockEntry τ)} {now ttl : Nat} {token : τ}

/-- Without lapses a lock is granted when it is free, and only then. -/
theorem tryAcquireLock_cases (h : lapsed held now = false) :
    (held = none ∧ tryAcquireLock held now token ttl = (some (token, now + ttl), true)) ∨
      (held ≠ none ∧ tryAcquireLock held now token ttl = (held, false)) := by
  cases held with
  | none => exact .inl ⟨rfl, rfl⟩
  | some e =>
    obtain ⟨owner, expiry⟩ := e
    have hlt : expiry > now := by simpa [lapsed] using h
    exact .inr ⟨by simp, by simp [tryAcquireLock, hlt]⟩

/-- The owner's release frees the lock. -/
theorem releaseLock_of_owner [DecidableEq τ] (h : held.map (·.1) = some token) :
    releaseLock held token = none := by
  obtain ⟨⟨owner, expiry⟩, rfl, rfl⟩ := Option.map_eq_some_iff.mp h
  simp [releaseLock]

end McpFramework
