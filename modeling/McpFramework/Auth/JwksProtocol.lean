import McpFramework.Auth.Jwks
import McpFramework.Lib.Mutex
import McpFramework.Lib.Transition

/-!
# Auth — JwksProtocol

`JwksValidator::validate` from any number of callers at once (`auth/jwks.rs`),
cut at its awaits, where a caller's future may also be dropped.

The cooldown is counted from the last recorded attempt, and an attempt is
recorded after its fetch. A caller that is dropped in the middle of its fetch
leaves no trace of it, and the next one fetches again at once.
-/

namespace McpFramework.JwksProtocol

open Lib

/-! ## The steps -/

/-- `token` is under validation; `alg` and `kid` are those of its header. -/
inductive Pc (Key : Type) where
  | idle
  | cachedKey (token : String) (alg : Algorithm) (kid : String)
  | lockFetch (token : String) (alg : Algorithm) (kid : String)
  | checkCooldown (token : String) (alg : Algorithm) (kid : String)
  | discover (token : String) (alg : Algorithm) (kid : String)
  | fetchJwks (token : String) (alg : Algorithm) (kid : String) (jwksUri : String)
  | record (token : String) (alg : Algorithm) (kid : String)
      (outcome : Except String (HashMap String Key))
  | lookup (token : String) (alg : Algorithm) (kid : String)
  | done (result : Except JwksRejection ValidatedJwt)
  | dropped

/-- A fetch has started and is not recorded. -/
def Pc.fetching {Key : Type} : Pc Key → Bool
  | .discover _ _ _ => true
  | .fetchJwks _ _ _ _ => true
  | .record _ _ _ _ => true
  | _ => false

def Pc.holdsFetchLock {Key : Type} : Pc Key → Bool
  | .checkCooldown _ _ _ => true
  | pc => pc.fetching

/-- `starts` is ghost: when the fetches started, the last one first. -/
structure State (Key : Type) where
  clock : Clock
  cache : KeyCache Key
  fetchLock : Option Nat
  tasks : Nat → Pc Key
  starts : List Nat

inductive Label where
  /-- `d` passes, after which the system clock reads `unix`. -/
  | tick (d unix : Nat)
  | call (t : Nat) (token : String)
  /-- Task `t` runs its next section. -/
  | run (t : Nat)
  /-- The discovery document of the fetch of task `t` arrives, or does not. -/
  | discovered (t : Nat) (answer : HttpAnswer String)
  | fetched (t : Nat) (answer : HttpAnswer (List Jwk))
  /-- The future of task `t` is dropped where it waits. -/
  | drop (t : Nat)

section Sections

variable {Key : Type} (v : JwksValidator) (lib : JwtLibrary Key)

def init (clock : Clock) : State Key :=
  { clock := clock, cache := .empty, fetchLock := none, tasks := fun _ => .idle, starts := [] }

def State.goto (st : State Key) (t : Nat) (pc : Pc Key) : State Key :=
  { st with tasks := Function.update st.tasks t pc }

def runSection (st : State Key) (t : Nat) : Option (State Key) :=
  let now := st.clock.now
  match st.tasks t with
  | .idle => none
  | .cachedKey token alg kid =>
    match st.cache.cachedKey now kid with
    | some key => some (st.goto t (.done (v.verify lib st.clock token alg key)))
    | none => some (st.goto t (.lockFetch token alg kid))
  | .lockFetch token alg kid =>
    match st.fetchLock with
    | none => some ({ st with fetchLock := some t }.goto t (.checkCooldown token alg kid))
    | some _ => none
  | .checkCooldown token alg kid =>
    -- Another task may have fetched while we waited for the lock.
    if st.cache.cooldownElapsed now then
      some ({ st with starts := now :: st.starts }.goto t (.discover token alg kid))
    else
      match st.cache.previousOutcome with
      | .ok () => some ({ st with fetchLock := none }.goto t (.lookup token alg kid))
      | .error rejection => some ({ st with fetchLock := none }.goto t (.done (.error rejection)))
  | .record token alg kid outcome =>
    match st.cache.record now outcome with
    | (cache, .ok ()) =>
      some ({ st with cache := cache, fetchLock := none }.goto t (.lookup token alg kid))
    | (cache, .error rejection) =>
      some ({ st with cache := cache, fetchLock := none }.goto t (.done (.error rejection)))
  | .lookup token alg kid =>
    some (st.goto t (.done ((st.cache.heldKey kid).bind (v.verify lib st.clock token alg))))
  | .discover _ _ _ => none
  | .fetchJwks _ _ _ _ => none
  | .done _ => none
  | .dropped => none

def step (st : State Key) : Label → Option (State Key)
  | .tick d unix => some { st with clock := ⟨st.clock.now + d, unix⟩ }
  | .call t token =>
    match st.tasks t with
    | .idle =>
      match JwksValidator.acceptedHeader lib token with
      | .ok (alg, kid) => some (st.goto t (.cachedKey token alg kid))
      | .error rejection => some (st.goto t (.done (.error rejection)))
    | _ => none
  | .run t => runSection v lib st t
  | .discovered t answer =>
    match st.tasks t with
    | .discover token alg kid =>
      match fetchJson v.discoveryUrl answer with
      | .ok jwksUri => some (st.goto t (.fetchJwks token alg kid jwksUri))
      | .error e => some (st.goto t (.record token alg kid (.error e)))
    | _ => none
  | .fetched t answer =>
    match st.tasks t with
    | .fetchJwks token alg kid jwksUri =>
      some (st.goto t (.record token alg kid (fetchedKeys lib jwksUri answer)))
    | _ => none
  | .drop t =>
    match st.tasks t with
    | .idle => none
    | .done _ => none
    | .dropped => none
    | pc =>
      some ({ st with fetchLock := if pc.holdsFetchLock then none else st.fetchLock }.goto t
        .dropped)

def system : System (State Key) Label := ⟨step v lib⟩

end Sections

/-- Every fetch starts a cooldown after each one before it. -/
def Spaced (starts : List Nat) : Prop :=
  starts.Pairwise fun later earlier => earlier + JWKS_REFRESH_COOLDOWN ≤ later

instance (starts : List Nat) : Decidable (Spaced starts) :=
  inferInstanceAs (Decidable (starts.Pairwise _))

/-- No caller is dropped between the start of its fetch and the record of it. -/
def Attended {Key : Type} (st : State Key) : Label → Prop
  | .drop t => (st.tasks t).fetching = false
  | _ => True

instance {Key : Type} (st : State Key) (l : Label) : Decidable (Attended st l) :=
  match l with
  | .drop t => inferInstanceAs (Decidable ((st.tasks t).fetching = false))
  | .tick _ _ => isTrue trivial
  | .call _ _ => isTrue trivial
  | .run _ => isTrue trivial
  | .discovered _ _ => isTrue trivial
  | .fetched _ _ => isTrue trivial

/-! ## The cooldown -/

section Cooldown

variable {Key : Type} {v : JwksValidator} {lib : JwtLibrary Key} {st st' : State Key} {t : Nat}
  {pc : Pc Key} {l : Label}

/-- Every start is at or before the last recorded attempt. -/
def Recorded (st : State Key) : Prop :=
  ∀ start ∈ st.starts, ∃ attemptedAt, st.cache.attemptedAt = some attemptedAt ∧
    start ≤ attemptedAt

/-- The lock is held throughout a fetch, the starts are spaced, and outside of a
fetch they are all recorded. -/
structure Inv (st : State Key) : Prop where
  guards : Guards st.fetchLock (fun pc => pc.holdsFetchLock = true) st.tasks
  past : ∀ start ∈ st.starts, start ≤ st.clock.now
  spaced : Spaced st.starts
  recorded : (∀ t, (st.tasks t).fetching = false) → Recorded st

theorem Inv.init (clock : Clock) : Inv (init clock : State Key) where
  guards := .of_outside fun _ h => by cases h
  past := fun _ h => by cases h
  spaced := .nil
  recorded := fun _ _ h => by cases h

theorem holdsFetchLock_of_fetching (h : pc.fetching = true) : pc.holdsFetchLock = true := by
  cases pc <;> first | rfl | exact h

/-- While one task is in the locked section, no other is in a fetch. -/
theorem Inv.others (h : Inv st) (ht : (st.tasks t).holdsFetchLock = true) {u : Nat}
    (hu : u ≠ t) : (st.tasks u).fetching = false := by
  have hout := h.guards.outside_of_ne ht hu
  rw [Bool.eq_false_iff]
  exact fun hf => hout (holdsFetchLock_of_fetching hf)

/-- A task moves, and neither starts nor records a fetch. -/
theorem Inv.move (h : Inv st) (htasks : st'.tasks = Function.update st.tasks t pc)
    (hclock : st'.clock = st.clock) (hcache : st'.cache = st.cache)
    (hstarts : st'.starts = st.starts)
    (hmoves : Moves (fun pc : Pc Key => pc.holdsFetchLock = true) t (st.tasks t) pc st.fetchLock
      st'.fetchLock)
    (hfetching : pc.fetching = (st.tasks t).fetching) : Inv st' where
  guards := by
    rw [htasks]
    exact h.guards.step hmoves
  past := by
    rw [hstarts, hclock]
    exact h.past
  spaced := by
    rw [hstarts]
    exact h.spaced
  recorded := fun hnone => by
    have hall : ∀ u, (st.tasks u).fetching = false := fun u => by
      have hu := hnone u
      rw [htasks] at hu
      by_cases hut : u = t
      · subst hut
        rwa [Function.update_self, hfetching] at hu
      · rwa [Function.update_of_ne hut] at hu
    intro start hstart
    rw [hstarts] at hstart
    rw [hcache]
    exact h.recorded hall start hstart

/-- A fetch starts after the cooldown. -/
theorem Inv.start (h : Inv st) (ht : (st.tasks t).holdsFetchLock = true)
    (hidle : (st.tasks t).fetching = false) (hpc : pc.fetching = true)
    (helapsed : st.cache.cooldownElapsed st.clock.now = true) :
    Inv ({ st with starts := st.clock.now :: st.starts }.goto t pc) where
  guards := h.guards.move (by simp [ht, holdsFetchLock_of_fetching hpc])
  past := fun start hstart => by
    rcases List.mem_cons.mp hstart with rfl | hstart
    · exact Nat.le_refl _
    · exact h.past start hstart
  spaced := by
    refine List.pairwise_cons.mpr ⟨fun start hstart => ?_, h.spaced⟩
    have hnone : ∀ u, (st.tasks u).fetching = false := fun u => by
      by_cases hu : u = t
      · rw [hu]
        exact hidle
      · exact h.others ht hu
    obtain ⟨attemptedAt, hattempted, hle⟩ := h.recorded hnone start hstart
    simp only [KeyCache.cooldownElapsed, hattempted, decide_eq_true_eq] at helapsed
    have hpos : 0 < JWKS_REFRESH_COOLDOWN := by decide
    omega
  recorded := fun hnone => by
    have ht := hnone t
    simp only [State.goto, Function.update_self, hpc] at ht
    cases ht

/-- A fetch is recorded, at a time no start is later than. -/
theorem Inv.record (h : Inv st) (ht : (st.tasks t).holdsFetchLock = true)
    (hpc : pc.holdsFetchLock = false) {cache : KeyCache Key}
    (hcache : cache.attemptedAt = some st.clock.now) :
    Inv ({ st with cache := cache, fetchLock := none }.goto t pc) where
  guards := h.guards.leave ht (by simp [hpc])
  past := h.past
  spaced := h.spaced
  recorded := fun _ start hstart => ⟨st.clock.now, hcache, h.past start hstart⟩

theorem record_attemptedAt (cache : KeyCache Key) (now : Nat)
    (outcome : Except String (HashMap String Key)) :
    (cache.record now outcome).1.attemptedAt = some now := by
  cases outcome <;> rfl

theorem Inv.run (h : Inv st) (hr : runSection v lib st t = some st') : Inv st' := by
  cases hpc : st.tasks t with
  | idle => simp [runSection, hpc] at hr
  | discover token alg kid => simp [runSection, hpc] at hr
  | fetchJwks token alg kid jwksUri => simp [runSection, hpc] at hr
  | done result => simp [runSection, hpc] at hr
  | dropped => simp [runSection, hpc] at hr
  | cachedKey token alg kid =>
    simp only [runSection, hpc] at hr
    split at hr <;> cases hr
    · exact h.move rfl rfl rfl rfl (.stay (by rw [hpc]; rfl)) (by rw [hpc]; rfl)
    · exact h.move rfl rfl rfl rfl (.stay (by rw [hpc]; rfl)) (by rw [hpc]; rfl)
  | lockFetch token alg kid =>
    simp only [runSection, hpc] at hr
    split at hr <;> cases hr
    rename_i hfree
    refine h.move rfl rfl rfl rfl ?_ (by rw [hpc]; rfl)
    rw [hfree]
    exact .enter
  | checkCooldown token alg kid =>
    have hlock : (st.tasks t).holdsFetchLock = true := by rw [hpc]; rfl
    simp only [runSection, hpc] at hr
    split at hr
    · -- The cooldown since the last attempt is over, so this one keeps its distance.
      rename_i helapsed
      cases hr
      exact h.start hlock (by rw [hpc]; rfl) rfl helapsed
    · split at hr <;> cases hr
      · exact h.move rfl rfl rfl rfl (.leave hlock (by simp [Pc.holdsFetchLock, Pc.fetching]))
          (by rw [hpc]; rfl)
      · exact h.move rfl rfl rfl rfl (.leave hlock (by simp [Pc.holdsFetchLock, Pc.fetching]))
          (by rw [hpc]; rfl)
  | record token alg kid outcome =>
    have hlock : (st.tasks t).holdsFetchLock = true := by rw [hpc]; rfl
    have hattempted := record_attemptedAt st.cache st.clock.now outcome
    simp only [runSection, hpc] at hr
    split at hr <;> cases hr
    · rename_i heq
      rw [heq] at hattempted
      exact h.record hlock rfl hattempted
    · rename_i heq
      rw [heq] at hattempted
      exact h.record hlock rfl hattempted
  | lookup token alg kid =>
    simp only [runSection, hpc] at hr
    cases hr
    exact h.move rfl rfl rfl rfl (.stay (by rw [hpc]; rfl)) (by rw [hpc]; rfl)

theorem Inv.drop (h : Inv st) (hg : (st.tasks t).fetching = false)
    (hs : step v lib st (.drop t) = some st') : Inv st' := by
  have hfetching : (Pc.dropped : Pc Key).fetching = (st.tasks t).fetching := by rw [hg]; rfl
  have hst' : st' = { st with
      fetchLock := if (st.tasks t).holdsFetchLock then none else st.fetchLock }.goto t
        .dropped := by
    simp only [step] at hs
    split at hs <;> cases hs
    rfl
  subst hst'
  refine h.move rfl rfl rfl rfl ?_ hfetching
  cases hlock : (st.tasks t).holdsFetchLock with
  | true => exact .leave hlock (by simp [Pc.holdsFetchLock, Pc.fetching])
  | false => exact .stay (by rw [hlock]; exact Iff.rfl)

theorem Inv.step (h : Inv st) (hg : Attended st l) (hs : step v lib st l = some st') :
    Inv st' := by
  cases l with
  | tick d unix =>
    cases hs
    exact ⟨h.guards, fun start hstart => (h.past start hstart).trans (Nat.le_add_right ..),
      h.spaced, h.recorded⟩
  | call t _ | discovered t _ =>
    simp only [JwksProtocol.step] at hs
    split at hs
    · rename_i hpc
      split at hs <;> cases hs
      · exact h.move rfl rfl rfl rfl (.stay (by rw [hpc]; rfl)) (by rw [hpc]; rfl)
      · exact h.move rfl rfl rfl rfl (.stay (by rw [hpc]; rfl)) (by rw [hpc]; rfl)
    · cases hs
  | run t => exact h.run hs
  | fetched t answer =>
    simp only [JwksProtocol.step] at hs
    split at hs <;> cases hs
    rename_i hpc
    exact h.move rfl rfl rfl rfl (.stay (by rw [hpc]; rfl)) (by rw [hpc]; rfl)
  | drop t => exact h.drop hg hs

end Cooldown

/-- **Fetches keep their distance** in every run in which no caller is dropped in
the middle of one. -/
theorem spaced_of_attended {Key : Type} (v : JwksValidator) (lib : JwtLibrary Key) (clock : Clock)
    (st : State Key) (hr : (system v lib).Reach Attended (init clock) st) : Spaced st.starts :=
  (hr.invariant (Inv.init clock) fun _ _ _ h hg hs => h.step hg hs).spaced

/-! ## A dropped caller -/

/-- Tokens name a key the issuer does not have. -/
def namesK9 : JwtLibrary Unit :=
  { decodeHeader := fun _ => some ⟨.rs256, some "k9"⟩
    decode := fun _ _ _ _ => .error "InvalidSignature"
    fromJwk := fun _ => some () }

/-- Task `t` asks for the key and starts a fetch. -/
def startFetch (t : Nat) : List Label := [.call t "token", .run t, .run t, .run t]

/-- The fetch comes to its end, and the key is still unknown. -/
def endFetch (t : Nat) : List Label :=
  [.discovered t (.json "https://issuer/jwks"), .fetched t (.json [⟨some "k1", "n"⟩]), .run t,
    .run t]

/-- One caller is dropped before it can fetch, and one that asks again during the
cooldown; a minute after the first fetch there is a second one. -/
def unknownKeys : List Label :=
  [.call 9 "token", .run 9, .drop 9] ++ startFetch 0 ++ endFetch 0 ++
    [.call 1 "token", .run 1, .run 1, .run 1, .drop 1, .tick JWKS_REFRESH_COOLDOWN 0] ++
    startFetch 2 ++ endFetch 2

theorem spaced_with_unknown_keys :
    ∃ st : State Unit, Spaced st.starts ∧ st.starts = [JWKS_REFRESH_COOLDOWN, 0] := by
  obtain ⟨st, hr, hp⟩ := System.exists_reach_of_run (S := system validator namesK9)
    (G := Attended) (s := init ⟨0, 0⟩) (w := unknownKeys)
    (p := fun st => decide (st.starts = [JWKS_REFRESH_COOLDOWN, 0])) (by decide +kernel)
  exact ⟨st, spaced_of_attended validator namesK9 ⟨0, 0⟩ st hr, of_decide_eq_true hp⟩

/-- Task 0 is dropped while it waits for the issuer, and task 1 fetches at once. -/
def disconnected : List Label := startFetch 0 ++ [.drop 0] ++ startFetch 1

theorem dropped_fetch_leaves_no_trace :
    ¬ ∀ (v : JwksValidator) (lib : JwtLibrary Unit) (clock : Clock) (st : State Unit),
      (system v lib).Reach (fun _ _ => True) (init clock) st → Spaced st.starts := by
  intro h
  obtain ⟨st, hr, hp⟩ := System.exists_reach_of_run (S := system validator namesK9)
    (G := fun _ _ => True) (s := init ⟨0, 0⟩) (w := disconnected)
    (p := fun st => decide (¬ Spaced st.starts)) (by decide +kernel)
  exact of_decide_eq_true hp (h validator namesK9 ⟨0, 0⟩ st hr)

end McpFramework.JwksProtocol
