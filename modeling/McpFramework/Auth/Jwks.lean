import McpFramework.Core.Time
import McpFramework.Lib.HashMap

/-!
# Auth — Jwks

Local validation of bearers against the issuer's published keys
(`auth/jwks.rs`): the key cache, and a validation run to its end while no other
fetch is under way. Callers that interleave are the business of the key
protocol.

`jsonwebtoken` is third-party code, and a `JwtLibrary` is a parameter.
-/

namespace McpFramework

open Lib

def JWKS_CACHE_TTL : Nat := Duration.fromSecs 600
def JWKS_REFRESH_COOLDOWN : Nat := Duration.fromSecs 60
def JWKS_CLOCK_SKEW_LEEWAY : Nat := Duration.fromSecs 30

/-! ## Tokens -/

inductive Algorithm where
  | hs256 | hs384 | hs512
  | es256 | es384
  | rs256 | rs384 | rs512
  | ps256 | ps384 | ps512
  | edDSA
deriving DecidableEq

/-- `{:?}`. -/
def Algorithm.debug : Algorithm → String
  | .hs256 => "HS256"
  | .hs384 => "HS384"
  | .hs512 => "HS512"
  | .es256 => "ES256"
  | .es384 => "ES384"
  | .rs256 => "RS256"
  | .rs384 => "RS384"
  | .rs512 => "RS512"
  | .ps256 => "PS256"
  | .ps384 => "PS384"
  | .ps512 => "PS512"
  | .edDSA => "EdDSA"

/-- Asymmetric only. -/
def ACCEPTED_ALGORITHMS : List Algorithm :=
  [.rs256, .rs384, .rs512, .ps256, .ps384, .ps512, .es256, .es384]

structure JwtHeader where
  alg : Algorithm
  kid : Option String

inductive Audience where
  | one (aud : String)
  | many (auds : List String)

def Audience.intoVec : Audience → List String
  | .one aud => [aud]
  | .many auds => auds

structure RegisteredClaims where
  sub : Option String
  exp : Option Nat
  azp : Option String
  aud : Option Audience

structure ValidatedJwt where
  subject : Option String
  expiresAt : Option Nat
  audiences : List String
  authorizedParty : Option String

inductive JwksRejection where
  | notAJwt
  | unsupportedAlgorithm (alg : String)
  | unknownKey
  | unavailable (why : String)
  | invalid (why : String)

/-- What a token is checked for; no `audience`, no check of it. -/
structure Validation where
  algorithm : Algorithm
  issuer : String
  validateExp : Bool
  validateNbf : Bool
  leeway : Nat
  requiredSpecClaims : List String
  audience : Option (List String)

/-- A published key. -/
structure Jwk where
  keyId : Option String
  parameters : String

structure JwtLibrary (Key : Type) where
  decodeHeader : String → Option JwtHeader
  /-- Signature and claims, at a system time. -/
  decode : Nat → String → Key → Validation → Except String RegisteredClaims
  fromJwk : Jwk → Option Key

/-! ## The issuer -/

/-- The answer to a GET. -/
inductive HttpAnswer (α : Type) where
  | failed (e : String)
  | status (status : String)
  | unparsable (e : String)
  | json (value : α)

def fetchJson {α : Type} (url : String) : HttpAnswer α → Except String α
  | .failed e => .error s!"GET {url} failed: {e}"
  | .status status => .error s!"GET {url} returned {status}"
  | .unparsable e => .error s!"GET {url} returned an unparsable body: {e}"
  | .json value => .ok value

/-- The cache key for a published key. -/
def jwkKid (jwk : Jwk) : String := jwk.keyId.getD ""

section Library

variable {Key : Type} (lib : JwtLibrary Key)

/-- The keys of a document, without those that cannot be used. -/
def usableKeys (jwks : List Jwk) : HashMap String Key :=
  jwks.foldl (fun keys jwk =>
    match lib.fromJwk jwk with
    | some key => keys.insert (jwkKid jwk) key
    | none => keys) HashMap.empty

/-- What a fetch comes to once the document is there. -/
def fetchedKeys (jwksUri : String) (answer : HttpAnswer (List Jwk)) :
    Except String (HashMap String Key) :=
  match fetchJson jwksUri answer with
  | .error e => .error e
  | .ok jwks =>
    let keys := usableKeys lib jwks
    if keys.entries.isEmpty then .error s!"JWKS at {jwksUri} contains no usable key" else .ok keys

end Library

/-! ## The cache -/

structure KeyCache (Key : Type) where
  keys : HashMap String Key
  fetchedAt : Option Nat
  attemptedAt : Option Nat
  lastError : Option String

namespace KeyCache

variable {Key : Type}

def empty : KeyCache Key :=
  { keys := HashMap.empty, fetchedAt := none, attemptedAt := none, lastError := none }

def isStale (cache : KeyCache Key) (now : Nat) : Bool :=
  match cache.fetchedAt with
  | some fetchedAt => decide (now - fetchedAt ≥ JWKS_CACHE_TTL)
  | none => true

/-- Whether a fetch is permitted right now. -/
def cooldownElapsed (cache : KeyCache Key) (now : Nat) : Bool :=
  match cache.attemptedAt with
  | some attemptedAt => decide (now - attemptedAt ≥ JWKS_REFRESH_COOLDOWN)
  | none => true

/-- A stale cache is a miss. -/
def cachedKey (cache : KeyCache Key) (now : Nat) (kid : String) : Option Key :=
  if cache.isStale now then none else cache.keys.get? kid

/-- What a refresh answers during the cooldown. -/
def previousOutcome (cache : KeyCache Key) : Except JwksRejection Unit :=
  match cache.lastError with
  | some e => if cache.keys.entries.isEmpty then .error (.unavailable e) else .ok ()
  | none => .ok ()

/-- The bookkeeping after a fetch. A failed one keeps the keys. -/
def record (cache : KeyCache Key) (now : Nat) :
    Except String (HashMap String Key) → KeyCache Key × Except JwksRejection Unit
  | .ok keys =>
    ({ keys := keys, fetchedAt := some now, attemptedAt := some now, lastError := none }, .ok ())
  | .error e =>
    ({ cache with attemptedAt := some now, lastError := some e }, .error (.unavailable e))

/-- A refresh that is begun at `now`; a fetch it makes is answered at `answered`
with `outcome`. -/
def refreshKeys (cache : KeyCache Key) (now answered : Nat)
    (outcome : Except String (HashMap String Key)) : KeyCache Key × Except JwksRejection Unit :=
  if cache.cooldownElapsed now then cache.record answered outcome
  else (cache, cache.previousOutcome)

/-- The lookup after a refresh, which ignores the TTL. -/
def heldKey (cache : KeyCache Key) (kid : String) : Except JwksRejection Key :=
  match cache.keys.get? kid with
  | some key => .ok key
  | none => .error .unknownKey

/-- The key for a `kid`, of the cache or after a refresh. -/
def selectKey (cache : KeyCache Key) (now answered : Nat)
    (outcome : Except String (HashMap String Key)) (kid : String) :
    KeyCache Key × Except JwksRejection Key :=
  match cache.cachedKey now kid with
  | some key => (cache, .ok key)
  | none =>
    match cache.refreshKeys now answered outcome with
    | (cache, .ok ()) => (cache, cache.heldKey kid)
    | (cache, .error rejection) => (cache, .error rejection)

end KeyCache

/-! ## Validation -/

structure JwksValidator where
  issuer : String
  discoveryUrl : String
  expectedAudiences : List String

/-- A `exp` as an instant, unless it is in the past. -/
def remainingFromUnixSecs (clock : Clock) (exp : Nat) : Option Nat :=
  let now := clock.unix / Duration.fromSecs 1
  if now ≤ exp then some (clock.now + Duration.fromSecs (exp - now)) else none

namespace JwksValidator

variable {Key : Type} (v : JwksValidator) (lib : JwtLibrary Key)

def validation (alg : Algorithm) : Validation :=
  { algorithm := alg
    issuer := v.issuer
    validateExp := true
    validateNbf := true
    leeway := JWKS_CLOCK_SKEW_LEEWAY / Duration.fromSecs 1
    requiredSpecClaims := ["exp", "iss"]
    audience := if v.expectedAudiences.isEmpty then none else some v.expectedAudiences }

/-- What a key makes of a token. -/
def verify (clock : Clock) (token : String) (alg : Algorithm) (key : Key) :
    Except JwksRejection ValidatedJwt :=
  match lib.decode clock.unix token key (v.validation alg) with
  | .error e => .error (.invalid e)
  | .ok claims =>
    .ok
      { subject := claims.sub
        expiresAt := claims.exp.bind (remainingFromUnixSecs clock)
        audiences := (claims.aud.map Audience.intoVec).getD []
        authorizedParty := claims.azp }

/-- The `alg` and `kid` a token may be looked up by. -/
def acceptedHeader (token : String) : Except JwksRejection (Algorithm × String) :=
  match lib.decodeHeader token with
  | none => .error .notAJwt
  | some header =>
    if header.alg ∈ ACCEPTED_ALGORITHMS then .ok (header.alg, header.kid.getD "")
    else .error (.unsupportedAlgorithm header.alg.debug)

/-- A validation that is begun at `asked`; a fetch it makes is answered at
`answered` with `outcome`. -/
def validate (cache : KeyCache Key) (asked answered : Clock)
    (outcome : Except String (HashMap String Key)) (token : String) :
    KeyCache Key × Except JwksRejection ValidatedJwt :=
  match acceptedHeader lib token with
  | .error rejection => (cache, .error rejection)
  | .ok (alg, kid) =>
    match cache.selectKey asked.now answered.now outcome kid with
    | (cache, .error rejection) => (cache, .error rejection)
    | (cache, .ok key) => (cache, v.verify lib answered token alg key)

/-! ## An outage

The state a cache is in after any fetches of which the last successful one
brought the keys `keys`. -/

/-- What failed fetches, each recorded at its instant, make of a cache. -/
def afterFailures (cache : KeyCache Key) (failures : List (Nat × String)) : KeyCache Key :=
  failures.foldl (fun cache f => (cache.record f.1 (.error f.2)).1) cache

/-- The keys survive. -/
@[simp] theorem afterFailures_keys (cache : KeyCache Key) (failures : List (Nat × String)) :
    (afterFailures cache failures).keys = cache.keys := by
  induction failures generalizing cache with
  | nil => rfl
  | cons f failures ih =>
    rw [afterFailures, List.foldl_cons]
    exact ih _

/-- What a token comes to if `key` decides it. -/
def decided (clock : Clock) (token : String) (header : JwtHeader) (key : Key) :
    Except JwksRejection ValidatedJwt :=
  if header.alg ∈ ACCEPTED_ALGORITHMS then v.verify lib clock token header.alg key
  else .error (.unsupportedAlgorithm header.alg.debug)

variable {v lib} {cache : KeyCache Key} {asked answered clock : Clock} {token e : String}
  {header : JwtHeader} {key : Key}

theorem decided_ne_unavailable (why : String) :
    v.decided lib clock token header key ≠ .error (.unavailable why) := by
  unfold decided verify
  split
  · split <;> simp
  · simp

/-- A fetch that fails leaves the keys and decides nothing by them. -/
theorem selectKey_of_stale (outcome : Except String (HashMap String Key)) (kid : String)
    (hstale : cache.isStale asked.now = true) (h : cache.cooldownElapsed asked.now = true)
    (houtcome : outcome = .error e) :
    (cache.selectKey asked.now answered.now outcome kid).2 = .error (.unavailable e) := by
  have hmiss : cache.cachedKey asked.now kid = none := if_pos hstale
  subst houtcome
  simp only [KeyCache.selectKey, hmiss, KeyCache.refreshKeys, h, if_true, KeyCache.record]

/-- A held key is found in a fresh cache, and in a stale one during the cooldown. -/
theorem selectKey_of_held (outcome : Except String (HashMap String Key)) {kid : String}
    (hkey : cache.keys.get? kid = some key)
    (h : cache.isStale asked.now = false ∨ cache.cooldownElapsed asked.now = false) :
    (cache.selectKey asked.now answered.now outcome kid).2 = .ok key := by
  cases hstale : cache.isStale asked.now with
  | false =>
    have hhit : cache.cachedKey asked.now kid = some key := by
      rw [KeyCache.cachedKey, hstale]
      exact hkey
    simp only [KeyCache.selectKey, hhit]
  | true =>
    have hcooldown : cache.cooldownElapsed asked.now = false := by
      rcases h with h | h
      · rw [hstale] at h
        cases h
      · exact h
    have hmiss : cache.cachedKey asked.now kid = none := if_pos hstale
    have hne : cache.keys.entries.isEmpty = false := by
      have hmem := (HashMap.mem_entries_iff cache.keys kid key).mpr hkey
      cases hentries : cache.keys.entries with
      | nil =>
        rw [hentries] at hmem
        cases hmem
      | cons e es => rfl
    have hprevious : cache.previousOutcome = .ok () := by
      unfold KeyCache.previousOutcome
      split
      · simp [hne]
      · rfl
    simp only [KeyCache.selectKey, hmiss, KeyCache.refreshKeys, hcooldown, Bool.false_eq_true,
      if_false, hprevious, KeyCache.heldKey, hkey]

theorem validate_of_accepted (outcome : Except String (HashMap String Key))
    (hheader : lib.decodeHeader token = some header) (halg : header.alg ∈ ACCEPTED_ALGORITHMS) :
    (v.validate lib cache asked answered outcome token).2 =
      (cache.selectKey asked.now answered.now outcome (header.kid.getD "")).2.bind
        (v.verify lib answered token header.alg) := by
  simp only [validate, acceptedHeader, hheader, halg, if_true]
  cases cache.selectKey asked.now answered.now outcome (header.kid.getD "") with
  | mk c r => cases r <;> rfl

theorem validate_of_unaccepted (outcome : Except String (HashMap String Key)) (key : Key)
    (hheader : lib.decodeHeader token = some header) (halg : header.alg ∉ ACCEPTED_ALGORITHMS) :
    (v.validate lib cache asked answered outcome token).2 =
      v.decided lib clock token header key := by
  simp only [validate, acceptedHeader, hheader, halg, if_false, decided]

end JwksValidator

open JwksValidator

/-- **When a held key decides.** After a fetch that brought the key the token
names and any failing ones, a validation whose own fetch would fail is decided by
that key if and only if it makes no fetch: the cache has not gone stale, or the
cooldown has not elapsed. -/
theorem held_key_decides_iff {Key : Type} (v : JwksValidator) (lib : JwtLibrary Key)
    (cache₀ : KeyCache Key) (fetched : Nat) (keys : HashMap String Key)
    (failures : List (Nat × String)) (asked answered : Clock) (e token : String)
    (header : JwtHeader) (key : Key) (hheader : lib.decodeHeader token = some header)
    (hkey : keys.get? (header.kid.getD "") = some key) :
    let cache := afterFailures (cache₀.record fetched (.ok keys)).1 failures
    let result := (v.validate lib cache asked answered (.error e) token).2
    (result = v.decided lib answered token header key ∧
        ∀ why, result ≠ .error (.unavailable why)) ↔
      header.alg ∉ ACCEPTED_ALGORITHMS ∨ cache.isStale asked.now = false ∨
        cache.cooldownElapsed asked.now = false := by
  intro cache result
  have hheld : cache.keys.get? (header.kid.getD "") = some key := by
    rw [afterFailures_keys]
    exact hkey
  by_cases halg : header.alg ∈ ACCEPTED_ALGORITHMS
  · have hresult : result =
        (cache.selectKey asked.now answered.now (.error e) (header.kid.getD "")).2.bind
          (v.verify lib answered token header.alg) := validate_of_accepted _ hheader halg
    have hdecided : v.decided lib answered token header key =
        v.verify lib answered token header.alg key := if_pos halg
    constructor
    · -- A fetch would be made, and its failure would be the answer.
      rintro ⟨-, hne⟩
      refine .inr ?_
      by_contra hfetch
      simp only [not_or, Bool.not_eq_false] at hfetch
      rw [selectKey_of_stale _ _ hfetch.1 hfetch.2 rfl] at hresult
      exact hne e hresult
    · intro h
      rw [selectKey_of_held _ hheld (h.resolve_left (not_not.mpr halg))] at hresult
      have heq : result = v.decided lib answered token header key := by
        rw [hresult, hdecided]
        rfl
      rw [heq]
      exact ⟨rfl, decided_ne_unavailable⟩
  · have heq : result = v.decided lib answered token header key :=
      validate_of_unaccepted _ key hheader halg
    rw [heq]
    exact ⟨fun _ => .inl halg, fun _ => ⟨rfl, decided_ne_unavailable⟩⟩

/-! ## An issuer that is down -/

/-- A library whose tokens all name key k1, which accepts them. -/
def acceptsAll : JwtLibrary Unit :=
  { decodeHeader := fun _ => some ⟨.rs256, some "k1"⟩
    decode := fun _ _ _ _ => .ok ⟨some "alice", none, none, none⟩
    fromJwk := fun _ => some () }

def validator : JwksValidator := ⟨"https://issuer", "https://issuer/.well-known", []⟩

def onlyK1 : HashMap String Unit := HashMap.empty.insert "k1" ()

/-- A minute after the TTL and half a minute after a failed attempt. -/
theorem decided_during_cooldown :
    let cache := afterFailures (KeyCache.empty.record 0 (.ok onlyK1)).1
      [(Duration.fromSecs 630, "down")]
    let clock : Clock := ⟨Duration.fromSecs 660, Duration.fromSecs 1000⟩
    (validator.validate acceptsAll cache clock clock (.error "down") "token").2 =
      validator.decided acceptsAll clock "token" ⟨.rs256, some "k1"⟩ () :=
  ((held_key_decides_iff validator acceptsAll KeyCache.empty 0 onlyK1
    [(Duration.fromSecs 630, "down")] ⟨Duration.fromSecs 660, Duration.fromSecs 1000⟩
    ⟨Duration.fromSecs 660, Duration.fromSecs 1000⟩ "down" "token" ⟨.rs256, some "k1"⟩ () rfl
    (by decide)).mpr (.inr (.inr (by decide)))).1

/-- Ten minutes after the keys were fetched the first validation fails. -/
theorem outage_rejects_held_key :
    ¬ ∀ (v : JwksValidator) (lib : JwtLibrary Unit) (cache₀ : KeyCache Unit) (fetched : Nat)
        (keys : HashMap String Unit) (failures : List (Nat × String)) (asked answered : Clock)
        (e token : String) (header : JwtHeader) (key : Unit),
      lib.decodeHeader token = some header → keys.get? (header.kid.getD "") = some key →
        let cache := afterFailures (cache₀.record fetched (.ok keys)).1 failures
        let result := (v.validate lib cache asked answered (.error e) token).2
        result = v.decided lib answered token header key ∧
          ∀ why, result ≠ .error (.unavailable why) := by
  intro h
  have hdecided := h validator acceptsAll KeyCache.empty 0 onlyK1 []
    ⟨Duration.fromSecs 600, 0⟩ ⟨Duration.fromSecs 600, 0⟩ "down" "token" ⟨.rs256, some "k1"⟩ ()
    rfl (by decide)
  exact hdecided.2 "down" rfl

end McpFramework
