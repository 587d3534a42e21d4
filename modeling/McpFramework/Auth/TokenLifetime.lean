import McpFramework.Auth.TokenStore

/-!
# Auth — TokenLifetime

The lifetime of a token that is written to the backend and read back, over
any number of restarts (`PersistedToken::from_stored`, `into_stored`).

A deadline is an `Instant` of the process that holds the token. What can be
compared between processes is its place on the wall clock, `unixDeadline`. A
write truncates that place to its millisecond, and a read adds the fraction of
the millisecond at which it happens: the deadline moves within its millisecond
and never leaves it, so the errors of a chain do not add up.
-/

namespace McpFramework

/-! ## Restarts -/

/-- Two readings of the clocks of one process, the second not before the first:
both clocks have advanced by the same time. -/
def Clock.Together (c c' : Clock) : Prop :=
  c.now ≤ c'.now ∧ c'.unix = c.unix + (c'.now - c.now)

/-- Where a deadline of a process lies on the wall clock. -/
def unixDeadline (clock : Clock) (deadline : Nat) : Nat := clock.unix + deadline - clock.now

/-- A token is written at one reading of the clocks and read at another, which
may be another process's: its `Instant`s need not have the same origin. -/
structure Restart where
  saved : Clock
  loaded : Clock
deriving DecidableEq, Repr

namespace Restart

/-- The restarts follow one another from `clock` on, and no clock is set back:
the process that holds the token writes it, the next one reads it. -/
def Follow (clock : Clock) : List Restart → Prop
  | [] => True
  | r :: rs => clock.Together r.saved ∧ r.saved.unix ≤ r.loaded.unix ∧ Follow r.loaded rs

/-- The clocks when the last of the restarts has read its token. -/
def last (clock : Clock) : List Restart → Clock
  | [] => clock
  | r :: rs => last r.loaded rs

/-- Both clocks run on through the restarts, as they do in one process. -/
def Continuous (rs : List Restart) : Prop := ∀ r ∈ rs, r.saved.Together r.loaded

/-- The wall clock in milliseconds fits a `u64` at every read. -/
def Fits (rs : List Restart) : Prop :=
  ∀ r ∈ rs, r.loaded.unix / 1000000 ≤ Duration.u64Max

end Restart

namespace StoredToken

def restart (token : StoredToken) (r : Restart) : StoredToken :=
  (PersistedToken.fromStored r.saved token).intoStored r.loaded

def restarts (token : StoredToken) (rs : List Restart) : StoredToken := rs.foldl restart token

end StoredToken

/-! ## One restart -/

variable {clock : Clock} {token : StoredToken} {r : Restart} {rs : List Restart} {d t : Nat}

theorem unixDeadline_together {c c' : Clock} (h : c.Together c') (d : Nat) :
    unixDeadline c' d = unixDeadline c d := by
  obtain ⟨hnow, hunix⟩ := h
  unfold unixDeadline
  omega

/-- The deadline after a restart, when nothing overflows: the read waits for
the millisecond that was written. -/
theorem remaining_persisted (hfits : (r.saved.unix + (d - r.saved.now)) / 1000000 ≤ Duration.u64Max)
    (hload : r.loaded.unix / 1000000 ≤ Duration.u64Max) :
    remainingUntilUnixMillis r.loaded (instantToUnixMillis r.saved d) =
      ((r.saved.unix + (d - r.saved.now)) / 1000000 - r.loaded.unix / 1000000) * 1000000 := by
  unfold remainingUntilUnixMillis instantToUnixMillis Duration.fromMillis
  rw [Duration.asMillis64_of_le hfits, Duration.asMillis64_of_le hload]

theorem expiresAt_restart :
    (token.restart r).expiresAt = token.expiresAt.map fun d =>
      r.loaded.now + remainingUntilUnixMillis r.loaded (instantToUnixMillis r.saved d) := by
  cases h : token.expiresAt with
  | none => simp [StoredToken.restart, PersistedToken.intoStored, PersistedToken.fromStored, h]
  | some d => simp [StoredToken.restart, PersistedToken.intoStored, PersistedToken.fromStored, h]

/-- What a chain of restarts keeps of a deadline that once lay at `t` on the
wall clock: while `t` is to come the deadline lies in the millisecond of `t`, and
from `t` on it is past. -/
structure Tracks (t : Nat) (clock : Clock) (d : Nat) : Prop where
  ahead : clock.unix < t → clock.now ≤ d ∧ unixDeadline clock d / 1000000 = t / 1000000
  past : t ≤ clock.unix → d ≤ clock.now

theorem Tracks.start (clock : Clock) (d : Nat) : Tracks (unixDeadline clock d) clock d where
  ahead h := by
    refine ⟨?_, rfl⟩
    unfold unixDeadline at h
    omega
  past h := by
    unfold unixDeadline at h
    omega

/-- The time that a write truncates: the deadline's millisecond, or the present
when the deadline is past. -/
theorem Tracks.saved (h : Tracks t clock d) (hsave : clock.Together r.saved)
    (hload : r.saved.unix ≤ r.loaded.unix) :
    (r.loaded.unix < t → (r.saved.unix + (d - r.saved.now)) / 1000000 = t / 1000000) ∧
      (t ≤ r.loaded.unix →
        (r.saved.unix + (d - r.saved.now)) / 1000000 ≤ r.loaded.unix / 1000000) := by
  obtain ⟨hnow, hunix⟩ := hsave
  have hahead := h.ahead
  have hpast := h.past
  unfold unixDeadline at hahead
  constructor
  · intro hlt
    have hmilli := hahead (by omega)
    by_cases hd : d < r.saved.now
    · -- The deadline is past, but its millisecond is the present one.
      omega
    · omega
  · intro hle
    by_cases hlt : clock.unix < t
    · have hmilli := hahead hlt
      omega
    · have := hpast (by omega)
      omega

/-- One restart keeps the track. -/
theorem Tracks.restart (h : Tracks t clock d) (hsave : clock.Together r.saved)
    (hload : r.saved.unix ≤ r.loaded.unix) (ht : t / 1000000 ≤ Duration.u64Max)
    (hfits : r.loaded.unix / 1000000 ≤ Duration.u64Max) :
    Tracks t r.loaded
      (r.loaded.now + remainingUntilUnixMillis r.loaded (instantToUnixMillis r.saved d)) := by
  obtain ⟨hahead, hpast⟩ := h.saved hsave hload
  have hsaved : (r.saved.unix + (d - r.saved.now)) / 1000000 ≤ Duration.u64Max := by
    by_cases hlt : r.loaded.unix < t
    · rw [hahead hlt]
      exact ht
    · exact le_trans (hpast (by omega)) hfits
  rw [remaining_persisted hsaved hfits]
  constructor
  · intro hlt
    rw [hahead hlt]
    refine ⟨Nat.le_add_right .., ?_⟩
    unfold unixDeadline
    omega
  · intro hle
    have := hpast hle
    omega

/-! ## A chain of restarts -/

theorem credentials_restarts (token : StoredToken) (rs : List Restart) :
    (token.restarts rs).accessToken = token.accessToken ∧
      (token.restarts rs).refreshToken = token.refreshToken := by
  induction rs generalizing token with
  | nil => exact ⟨rfl, rfl⟩
  | cons r rs ih => exact ih (token.restart r)

theorem expiresAt_restarts_none (h : token.expiresAt = none) (rs : List Restart) :
    (token.restarts rs).expiresAt = none := by
  induction rs generalizing token with
  | nil => exact h
  | cons r rs ih =>
    apply ih
    rw [expiresAt_restart, h]
    rfl

/-- A chain of restarts keeps the track. -/
theorem Tracks.restarts (hd : token.expiresAt = some d) (h : Tracks t clock d)
    (hfollow : Restart.Follow clock rs) (ht : t / 1000000 ≤ Duration.u64Max)
    (hfits : Restart.Fits rs) :
    ∃ d', (token.restarts rs).expiresAt = some d' ∧ Tracks t (Restart.last clock rs) d' := by
  induction rs generalizing token clock d with
  | nil => exact ⟨d, hd, h⟩
  | cons r rs ih =>
    obtain ⟨hsave, hload, hrest⟩ := hfollow
    have hfirst := hfits r (List.mem_cons_self ..)
    refine ih ?_ (h.restart hsave hload ht hfirst) hrest fun r' hr' =>
      hfits r' (List.mem_cons_of_mem r hr')
    rw [expiresAt_restart, hd]
    rfl

/-- Clocks that run on through the restarts show a deadline at one place. -/
theorem together_last (hfollow : Restart.Follow clock rs) (hcont : Restart.Continuous rs) :
    clock.Together (Restart.last clock rs) := by
  induction rs generalizing clock with
  | nil => exact ⟨le_refl _, by simp [Restart.last]⟩
  | cons r rs ih =>
    obtain ⟨⟨hnow, hunix⟩, -, hrest⟩ := hfollow
    obtain ⟨hnow', hunix'⟩ := hcont r (List.mem_cons_self ..)
    obtain ⟨hnow'', hunix''⟩ := ih hrest fun r' hr' => hcont r' (List.mem_cons_of_mem r hr')
    show clock.Together (Restart.last r.loaded rs)
    constructor
    · omega
    · omega

theorem isExpired_of_le {now : Nat} (hd : token.expiresAt = some d) (h : d ≤ now) :
    token.isExpired now = true := by
  unfold StoredToken.isExpired
  rw [hd]
  have : 0 < TOKEN_EXPIRY_BUFFER := by decide
  exact decide_eq_true (by omega)

/-- Persisting a token keeps its lifetime: its credentials are unchanged, no
expiry stays no expiry, a deadline that is still to come at the last read is
within a millisecond of where it was, and a deadline that is reached at a read
leaves a token that is expired from then on. -/
theorem lifetime_restarts (token : StoredToken) (clock : Clock) (rs : List Restart)
    (hfollow : Restart.Follow clock rs) (hfits : Restart.Fits rs) :
    (token.restarts rs).accessToken = token.accessToken ∧
    (token.restarts rs).refreshToken = token.refreshToken ∧
    (token.expiresAt = none → (token.restarts rs).expiresAt = none) ∧
    ∀ d, token.expiresAt = some d → unixDeadline clock d / 1000000 ≤ Duration.u64Max →
      ∃ d', (token.restarts rs).expiresAt = some d' ∧
        ((Restart.last clock rs).unix < unixDeadline clock d →
          unixDeadline (Restart.last clock rs) d' < unixDeadline clock d + 1000000 ∧
          unixDeadline clock d < unixDeadline (Restart.last clock rs) d' + 1000000 ∧
          (Restart.Continuous rs → d' < d + 1000000 ∧ d < d' + 1000000)) ∧
        (unixDeadline clock d ≤ (Restart.last clock rs).unix →
          ∀ now, (Restart.last clock rs).now ≤ now →
            (token.restarts rs).isExpired now = true) := by
  refine ⟨(credentials_restarts token rs).1, (credentials_restarts token rs).2,
    fun h => expiresAt_restarts_none h rs, ?_⟩
  intro d hd ht
  obtain ⟨d', hd', htrack⟩ := Tracks.restarts hd (Tracks.start clock d) hfollow ht hfits
  refine ⟨d', hd', ?_, ?_⟩
  · intro hahead
    obtain ⟨hlate, hmilli⟩ := htrack.ahead hahead
    refine ⟨by omega, by omega, ?_⟩
    intro hcont
    have htogether := together_last hfollow hcont
    rw [unixDeadline_together htogether] at hmilli
    have ⟨hnow, hunix⟩ := htogether
    unfold unixDeadline at hmilli hahead
    omega
  · intro hle now hnow
    exact isExpired_of_le hd' (le_trans (htrack.past hle) hnow)

namespace TwoRestarts

/-- A token that is issued, and read by two later processes. -/
def login : StoredToken := ⟨"access", some "refresh", some 5300000⟩

def start : Clock := ⟨1000000, 9900000⟩

def twoRestarts : List Restart :=
  [⟨⟨2000000, 10900000⟩, ⟨50, 11500000⟩⟩, ⟨⟨1000050, 12500000⟩, ⟨70, 13100000⟩⟩]

end TwoRestarts

open TwoRestarts in
theorem lifetime_of_issued :
    ∃ d', (login.restarts twoRestarts).expiresAt = some d' ∧
      unixDeadline (Restart.last start twoRestarts) d' < unixDeadline start 5300000 + 1000000 ∧
      unixDeadline start 5300000 <
        unixDeadline (Restart.last start twoRestarts) d' + 1000000 := by
  have hfollow : Restart.Follow start twoRestarts :=
    ⟨⟨by decide, by decide⟩, by decide, ⟨by decide, by decide⟩, by decide, trivial⟩
  have hfits : Restart.Fits twoRestarts := by
    unfold Restart.Fits
    decide
  obtain ⟨-, -, -, h⟩ := lifetime_restarts login start twoRestarts hfollow hfits
  obtain ⟨d', hd', hahead, -⟩ := h 5300000 rfl (by decide)
  obtain ⟨hlow, hhigh, -⟩ := hahead (by decide)
  exact ⟨d', hd', hlow, hhigh⟩

end McpFramework
