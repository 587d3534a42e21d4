import Mathlib.Order.MinMax

/-!
# Core — Time

The two clocks the framework reads and the way a deadline travels between
them. A process measures with `Instant`, which no other process can interpret;
what it persists is a Unix timestamp in milliseconds.

An `Instant` is the nanoseconds since an origin of its process, a `Duration`
is nanoseconds, and both are plain `Nat` here so that arithmetic on them is
`omega`'s. A sum that the platform cannot represent panics there: where that is
the question it is `Instant.add`, elsewhere a sum of `Nat`.
-/

namespace McpFramework

namespace Duration

def fromMillis (ms : Nat) : Nat := ms * 1000000

def fromSecs (s : Nat) : Nat := s * 1000000000

/-- `u64::MAX`. -/
def u64Max : Nat := 18446744073709551615

/-- `as_millis().min(u64::MAX as u128) as u64`. -/
def asMillis64 (d : Nat) : Nat := min (d / 1000000) u64Max

theorem asMillis64_of_le {d : Nat} (h : d / 1000000 ≤ u64Max) : asMillis64 d = d / 1000000 := by
  unfold asMillis64
  exact Nat.min_eq_left h

theorem asMillis64_mono {d d' : Nat} (h : d ≤ d') : asMillis64 d ≤ asMillis64 d' := by
  unfold asMillis64
  omega

end Duration

/-- `i64::MAX`. -/
def i64Max : Nat := 9223372036854775807

/-- `Instant + Duration`; `none` is the panic where the seconds of the sum exceed
`i64`. -/
def Instant.add (now d : Nat) : Option Nat :=
  if (now + d) / 1000000000 ≤ i64Max then some (now + d) else none

/-- What `Instant::now()` and `SystemTime::now().duration_since(UNIX_EPOCH)`
answer at one point of a run. -/
structure Clock where
  now : Nat
  unix : Nat
deriving DecidableEq, Repr

/-- Convert a monotonic in-process deadline into a portable Unix timestamp. -/
def instantToUnixMillis (c : Clock) (deadline : Nat) : Nat :=
  Duration.asMillis64 (c.unix + (deadline - c.now))

/-- The remaining duration until a persisted Unix timestamp. -/
def remainingUntilUnixMillis (c : Clock) (deadlineMs : Nat) : Nat :=
  Duration.fromMillis (deadlineMs - Duration.asMillis64 c.unix)

/-! ## Constants -/

def TOKEN_EXPIRY_BUFFER : Nat := Duration.fromSecs 30
def REFRESH_LOCK_TTL : Nat := Duration.fromSecs 15
def REFRESH_LOCK_WAIT : Nat := Duration.fromSecs 20
def REFRESH_LOCK_POLL : Nat := Duration.fromMillis 100
def SESSION_LOCK_TTL : Nat := REFRESH_LOCK_TTL
def SESSION_LOCK_WAIT : Nat := REFRESH_LOCK_WAIT
def SESSION_LOCK_POLL : Nat := REFRESH_LOCK_POLL
def OPAQUE_ACCESS_TTL : Nat := Duration.fromSecs 3600
def OPAQUE_REFRESH_TTL : Nat := Duration.fromSecs (30 * 24 * 3600)
def DEFAULT_SESSION_TTL : Nat := Duration.fromSecs (30 * 60)
def SESSION_BINDING_MAX_ENTRIES : Nat := 100000

end McpFramework
