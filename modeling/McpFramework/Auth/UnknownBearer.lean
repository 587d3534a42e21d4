import McpFramework.Auth.JwksProtocol
import McpFramework.Auth.TokenRequest

/-!
# Auth — UnknownBearer

Bearers that `/oauth/token` did not issue (`validate_unknown_bearer` and
`introspect_access_token` in `auth/store.rs`), from any number of callers at once,
cut at their awaits. The issuer's keys are those of `JwksProtocol`; what they
cannot settle is put to the authorization server.

`events` is ghost: what happened, the newest first.
-/

namespace McpFramework.UnknownBearer

open Lib
open TokenRequest (trimEndMatches)

/-! ## Verdicts -/

def allowsJwks : UnknownTokenValidation → Bool
  | .jwks | .jwksThenIntrospection => true
  | _ => false

def allowsIntrospection : UnknownTokenValidation → Bool
  | .introspection | .jwksThenIntrospection => true
  | _ => false

/-- `Display` of a rejection. -/
def display : JwksRejection → String
  | .notAJwt => "credential is not a JWT"
  | .unsupportedAlgorithm alg => "unsupported JWT algorithm '" ++ alg ++ "'"
  | .unknownKey => "no issuer key matches the token's kid"
  | .unavailable why => "issuer keys unavailable: " ++ why
  | .invalid why => "token rejected by issuer keys: " ++ why

/-- Whether the caller may still ask the authorization server. -/
def mayFallBack : JwksRejection → Bool
  | .invalid _ => false
  | _ => true

inductive BearerValidationSource where
  | jwks
  | introspection
deriving DecidableEq, Repr

structure ValidatedBearer where
  expiresAt : Option Nat
  subject : Option String
  source : BearerValidationSource
deriving DecidableEq, Repr

inductive BearerRejection where
  | policyReject
  | tokenInvalid (why : String)
  | opaqueUnverifiable
  | introspectionNotPermitted
  | issuerUnreachable (why : String)
deriving DecidableEq, Repr

def bearerRejectionFromJwks : JwksRejection → BearerRejection
  | .notAJwt => .opaqueUnverifiable
  | .unavailable why => .issuerUnreachable why
  | other => .tokenInvalid (display other)

/-! ## Introspection -/

structure RefreshConfig where
  clientId : String
  clientSecret : Option String
  tokenUrl : String

structure IntrospectionRequest where
  url : String
  form : List (String × String)
deriving DecidableEq, Repr

def introspectionRequest (config : RefreshConfig) (token : String) : IntrospectionRequest :=
  { url := trimEndMatches config.tokenUrl '/' ++ "/introspect"
    form := [("token", token), ("token_type_hint", "access_token"),
        ("client_id", config.clientId)] ++
      (config.clientSecret.map fun secret => ("client_secret", secret)).toList }

/-- What comes of the request; `json` has the `active` and the `exp` of the answer,
where these are a boolean and a number. -/
inductive IntrospectionAnswer where
  | failed (error : String)
  | status (code : Nat) (shown : String)
  | unparsable (error : String)
  | json (active : Option Bool) (exp : Option Nat)
deriving DecidableEq, Repr

inductive TokenIntrospection where
  | active (expiresAt : Option Nat)
  | inactive
  | notPermitted
  | unavailable (why : String)
deriving DecidableEq, Repr

def introspected (clock : Clock) : IntrospectionAnswer → TokenIntrospection
  | .failed error => .unavailable error
  | .status code shown =>
    -- About the client, not the token.
    if code = 403 ∨ code = 401 then .notPermitted
    else .unavailable ("introspection returned " ++ shown)
  | .unparsable error => .unavailable error
  | .json active exp =>
    if active ≠ some true then .inactive
    else
      match exp with
      | none => .active none
      | some exp =>
        let now := clock.unix / Duration.fromSecs 1
        if exp ≤ now then .inactive
        else .active (some (clock.now + Duration.fromSecs (exp - now)))

/-- What an introspection means for a bearer that the keys left open, for the
reason in `fallback` where they were asked. -/
def settle (fallback : Option JwksRejection) :
    TokenIntrospection → Except BearerRejection ValidatedBearer
  | .active expiresAt =>
    .ok { expiresAt := expiresAt, subject := none, source := .introspection }
  | .inactive => .error (.tokenInvalid "the authorization server reports it as inactive")
  | .notPermitted =>
    match fallback with
    | some .notAJwt => .error .opaqueUnverifiable
    | _ => .error .introspectionNotPermitted
  | .unavailable why =>
    match fallback with
    | some (.unavailable jwksWhy) =>
      .error (.issuerUnreachable ("JWKS: " ++ jwksWhy ++ "; introspection: " ++ why))
    | _ => .error (.issuerUnreachable why)

/-! ## The steps -/

/-- `policy` is that of `bearer_validation`, and `jwks` its validator; without one
the validator is not used. -/
structure Deployment where
  policy : Option UnknownTokenValidation
  jwks : JwksValidator
  refreshConfig : Option RefreshConfig

def Deployment.validation (d : Deployment) : UnknownTokenValidation := d.policy.getD .introspection

/-- `token` is under validation. -/
inductive Pc where
  | idle
  | validating (token : String)
  | readLatch (token : String) (fallback : Option JwksRejection)
  | readConfig (token : String) (fallback : Option JwksRejection)
  | waiting (token : String) (fallback : Option JwksRejection)
  | done (token : String) (result : Except BearerRejection ValidatedBearer)
  | dropped

inductive Event where
  /-- The issuer's keys arrive. -/
  | published (jwks : List Jwk)
  | keysRefused (t : Nat) (token : String) (rejection : JwksRejection)
  /-- Caller `t` finds the latch open. -/
  | passed (t : Nat)
  | sent (t : Nat) (token : String) (request : IntrospectionRequest)
  | answered (t : Nat) (clock : Clock) (answer : IntrospectionAnswer)
  | warned

structure State (Key : Type) where
  keys : JwksProtocol.State Key
  introspectionNotPermitted : Bool
  callers : Nat → Pc
  events : List Event

inductive Label where
  /-- Time passes, or a validation at the keys goes on. -/
  | keys (l : JwksProtocol.Label)
  | call (t : Nat) (token : String)
  /-- Caller `t` runs its next section. -/
  | run (t : Nat)
  | answer (t : Nat) (answer : IntrospectionAnswer)
  /-- The future of caller `t` is dropped where it waits. -/
  | drop (t : Nat)

section Sections

variable {Key : Type} (d : Deployment) (lib : JwtLibrary Key)

def init (clock : Clock) : State Key :=
  { keys := JwksProtocol.init clock, introspectionNotPermitted := false, callers := fun _ => .idle
    events := [] }

def State.goto (st : State Key) (t : Nat) (pc : Pc) : State Key :=
  { st with callers := Function.update st.callers t pc }

def State.happens (st : State Key) (e : Event) : State Key := { st with events := e :: st.events }

/-- Caller `t` returns. -/
def State.finish (st : State Key) (t : Nat) (token : String)
    (result : Except BearerRejection ValidatedBearer) : State Key :=
  st.goto t (.done token result)

/-- The document that a step of the keys brings. -/
def publishes : JwksProtocol.Label → Option (List Jwk)
  | .fetched _ (.json jwks) => some jwks
  | _ => none

def startCall (st : State Key) (t : Nat) (token : String) : Option (State Key) :=
  if d.validation = .reject then some (st.finish t token (.error .policyReject))
  else if allowsJwks d.validation ∧ d.policy.isSome then
    (JwksProtocol.step d.jwks lib st.keys (.call t token)).map fun keys =>
      { st with keys := keys }.goto t (.validating token)
  else if allowsIntrospection d.validation then some (st.goto t (.readLatch token none))
  else some (st.finish t token (.error .opaqueUnverifiable))

def runSection (st : State Key) (t : Nat) : Option (State Key) :=
  match st.callers t with
  | .validating token =>
    match st.keys.tasks t with
    | .done (.ok jwt) =>
      some (st.finish t token
        (.ok { expiresAt := jwt.expiresAt, subject := jwt.subject, source := .jwks }))
    | .done (.error rejection) =>
      let st := st.happens (.keysRefused t token rejection)
      if mayFallBack rejection = false ∨ allowsIntrospection d.validation = false then
        some (st.finish t token (.error (bearerRejectionFromJwks rejection)))
      else some (st.goto t (.readLatch token (some rejection)))
    | _ => none
  | .readLatch token fallback =>
    if st.introspectionNotPermitted then
      some (st.finish t token (settle fallback .notPermitted))
    else some ((st.happens (.passed t)).goto t (.readConfig token fallback))
  | .readConfig token fallback =>
    match d.refreshConfig with
    | none =>
      some (st.finish t token (settle fallback
        (.unavailable "no OAuth configuration is available")))
    | some config =>
      some ((st.happens (.sent t token (introspectionRequest config token))).goto t
        (.waiting token fallback))
  | _ => none

/-- The latch is set with the first refusal, and only that one is warned of. -/
def latch (st : State Key) : State Key :=
  if st.introspectionNotPermitted then st
  else { st with introspectionNotPermitted := true }.happens .warned

def answerSection (st : State Key) (t : Nat) (answer : IntrospectionAnswer) :
    Option (State Key) :=
  match st.callers t with
  | .waiting token fallback =>
    let verdict := introspected st.keys.clock answer
    let st := st.happens (.answered t st.keys.clock answer)
    let st := if verdict = .notPermitted then latch st else st
    some (st.finish t token (settle fallback verdict))
  | _ => none

def step (st : State Key) : Label → Option (State Key)
  | .keys (.call _ _) => none
  | .keys (.drop _) => none
  | .keys l =>
    (JwksProtocol.step d.jwks lib st.keys l).map fun keys =>
      { st with keys := keys, events := (publishes l).toList.map Event.published ++ st.events }
  | .call t token =>
    match st.callers t with
    | .idle => startCall d lib st t token
    | _ => none
  | .run t => runSection d st t
  | .answer t answer => answerSection st t answer
  | .drop t =>
    match st.callers t with
    | .idle => none
    | .done _ _ => none
    | .dropped => none
    | .validating _ =>
      -- Where the keys have answered there is nothing of them to drop.
      some ({ st with
        keys := (JwksProtocol.step d.jwks lib st.keys (.drop t)).getD st.keys }.goto t .dropped)
    | _ => some (st.goto t .dropped)

def system : System (State Key) Label := ⟨step d lib⟩

end Sections

/-! ## What the keys vouch for -/

section Keys

variable {Key : Type} {d : Deployment} {lib : JwtLibrary Key} {events events' : List Event}
  {ks ks' : JwksProtocol.State Key} {token : String} {t : Nat} {pc : JwksProtocol.Pc Key}

/-- The issuer has published the key under this `kid`. -/
def Published (lib : JwtLibrary Key) (events : List Event) (kid : String) (key : Key) : Prop :=
  ∃ jwks, Event.published jwks ∈ events ∧ (usableKeys lib jwks).get? kid = some key

/-- A published key verified the token, with an algorithm that is accepted. -/
def Vouched (d : Deployment) (lib : JwtLibrary Key) (events : List Event) (token : String)
    (jwt : ValidatedJwt) : Prop :=
  ∃ alg kid key clock, JwksValidator.acceptedHeader lib token = .ok (alg, kid) ∧
    Published lib events kid key ∧ d.jwks.verify lib clock token alg key = .ok jwt

theorem Published.mono {kid : String} {key : Key} (hsub : events ⊆ events')
    (h : Published lib events kid key) : Published lib events' kid key := by
  obtain ⟨jwks, hmem, hget⟩ := h
  exact ⟨jwks, hsub hmem, hget⟩

theorem Vouched.mono {jwt : ValidatedJwt} (hsub : events ⊆ events')
    (h : Vouched d lib events token jwt) : Vouched d lib events' token jwt := by
  obtain ⟨alg, kid, key, clock, hheader, hpublished, hverify⟩ := h
  exact ⟨alg, kid, key, clock, hheader, hpublished.mono hsub, hverify⟩

/-- What is under validation at the keys. -/
def subject? : JwksProtocol.Pc Key → Option (String × Algorithm × String)
  | .cachedKey token alg kid => some (token, alg, kid)
  | .lockFetch token alg kid => some (token, alg, kid)
  | .checkCooldown token alg kid => some (token, alg, kid)
  | .discover token alg kid => some (token, alg, kid)
  | .fetchJwks token alg kid _ => some (token, alg, kid)
  | .record token alg kid _ => some (token, alg, kid)
  | .lookup token alg kid => some (token, alg, kid)
  | _ => none

/-- A validation of `token` is of nothing else, and what it comes to is vouched
for. -/
structure TaskSound (d : Deployment) (lib : JwtLibrary Key) (events : List Event) (token : String)
    (pc : JwksProtocol.Pc Key) : Prop where
  subject : ∀ s, subject? pc = some s →
    s.1 = token ∧ JwksValidator.acceptedHeader lib token = .ok s.2
  done : ∀ jwt, pc = .done (.ok jwt) → Vouched d lib events token jwt

/-- Keys that are held, or about to be, are published. -/
structure KeysSound (lib : JwtLibrary Key) (events : List Event) (ks : JwksProtocol.State Key) :
    Prop where
  cache : ∀ kid key, ks.cache.keys.get? kid = some key → Published lib events kid key
  recorded : ∀ t token alg kid keys, ks.tasks t = .record token alg kid (.ok keys) →
    ∀ kid key, keys.get? kid = some key → Published lib events kid key

theorem TaskSound.mono (hsub : events ⊆ events') (h : TaskSound d lib events token pc) :
    TaskSound d lib events' token pc :=
  ⟨h.subject, fun jwt hjwt => (h.done jwt hjwt).mono hsub⟩

/-- A validation that goes on is of the same token. -/
theorem TaskSound.goOn {pc' : JwksProtocol.Pc Key} (h : TaskSound d lib events token pc)
    (hsame : subject? pc' = subject? pc) (hopen : ∀ jwt, pc' ≠ .done (.ok jwt)) :
    TaskSound d lib events' token pc' :=
  ⟨fun s hs => h.subject s (hsame ▸ hs), fun jwt hjwt => absurd hjwt (hopen jwt)⟩

/-- A validation that ends without a verdict for the token. -/
theorem TaskSound.ended {pc' : JwksProtocol.Pc Key} (hnone : subject? pc' = none)
    (hopen : ∀ jwt, pc' ≠ .done (.ok jwt)) : TaskSound d lib events' token pc' := by
  refine ⟨fun s hs => ?_, fun jwt hjwt => absurd hjwt (hopen jwt)⟩
  rw [hnone] at hs
  cases hs

/-- A validation that a published key decides. -/
theorem TaskSound.verified {alg : Algorithm} {kid : String} {key : Key} {clock : Clock}
    {tok : String} (h : TaskSound d lib events token pc)
    (hsubject : subject? pc = some (tok, alg, kid)) (hpublished : Published lib events kid key) :
    TaskSound d lib events token (.done (d.jwks.verify lib clock tok alg key)) := by
  obtain ⟨rfl, hheader⟩ := h.subject _ hsubject
  refine ⟨fun s hs => ?_, fun jwt hjwt => ?_⟩
  · cases hs
  have hverify := JwksProtocol.Pc.done.inj hjwt
  exact ⟨alg, kid, key, clock, hheader, hpublished, hverify⟩

/-- What a step keeps: the soundness of the keys and of every validation. -/
def Keeps (d : Deployment) (lib : JwtLibrary Key) (events events' : List Event)
    (ks ks' : JwksProtocol.State Key) : Prop :=
  KeysSound lib events' ks' ∧ ∀ u token, TaskSound d lib events token (ks.tasks u) →
    TaskSound d lib events' token (ks'.tasks u)

/-- One validation moves. -/
theorem KeysSound.move (h : KeysSound lib events ks) (hsub : events ⊆ events')
    (htasks : ks'.tasks = Function.update ks.tasks t pc)
    (hcache : ∀ kid key, ks'.cache.keys.get? kid = some key → Published lib events' kid key)
    (hrecord : ∀ token alg kid keys, pc = .record token alg kid (.ok keys) →
      ∀ kid key, keys.get? kid = some key → Published lib events' kid key)
    (hsound : ∀ token, TaskSound d lib events token (ks.tasks t) →
      TaskSound d lib events' token pc) : Keeps d lib events events' ks ks' := by
  refine ⟨⟨hcache, fun u token alg kid keys hu => ?_⟩, fun u token hu => ?_⟩
  · rw [htasks] at hu
    by_cases hut : u = t
    · subst hut
      rw [Function.update_self] at hu
      exact hrecord token alg kid keys hu
    · rw [Function.update_of_ne hut] at hu
      exact fun kid' key hget => (h.recorded u token alg kid keys hu kid' key hget).mono hsub
  · rw [htasks]
    by_cases hut : u = t
    · subst hut
      rw [Function.update_self]
      exact hsound token hu
    · rw [Function.update_of_ne hut]
      exact hu.mono hsub

theorem KeysSound.held (h : KeysSound lib events ks) {kid : String} {key : Key} {now : Nat}
    (hkey : ks.cache.cachedKey now kid = some key) : Published lib events kid key := by
  rw [KeyCache.cachedKey] at hkey
  split at hkey
  · cases hkey
  · exact h.cache kid key hkey

/-- What a recorded fetch leaves in the cache is what was held, or what it brought. -/
theorem keys_record (cache : KeyCache Key) (now : Nat)
    (outcome : Except String (HashMap String Key)) :
    (cache.record now outcome).1.keys = match outcome with
      | .ok keys => keys
      | .error _ => cache.keys := by
  cases outcome <;> rfl

theorem KeysSound.run (h : KeysSound lib events ks)
    (hr : JwksProtocol.runSection d.jwks lib ks t = some ks') :
    Keeps d lib events events ks ks' := by
  have hsub : events ⊆ events := List.Subset.refl events
  cases hpc : ks.tasks t with
  | idle => simp [JwksProtocol.runSection, hpc] at hr
  | discover token alg kid => simp [JwksProtocol.runSection, hpc] at hr
  | fetchJwks token alg kid jwksUri => simp [JwksProtocol.runSection, hpc] at hr
  | done result => simp [JwksProtocol.runSection, hpc] at hr
  | dropped => simp [JwksProtocol.runSection, hpc] at hr
  | cachedKey token alg kid =>
    simp only [JwksProtocol.runSection, hpc] at hr
    split at hr <;> cases hr
    · next key hkey =>
      refine h.move hsub rfl h.cache (fun _ _ _ _ hpc' => by cases hpc') fun u hu => ?_
      rw [hpc] at hu
      exact hu.verified rfl (h.held hkey)
    · refine h.move hsub rfl h.cache (fun _ _ _ _ hpc' => by cases hpc') fun u hu => ?_
      rw [hpc] at hu
      exact hu.goOn rfl fun _ hpc' => by cases hpc'
  | lockFetch token alg kid =>
    simp only [JwksProtocol.runSection, hpc] at hr
    split at hr <;> cases hr
    refine h.move hsub rfl h.cache (fun _ _ _ _ hpc' => by cases hpc') fun u hu => ?_
    rw [hpc] at hu
    exact hu.goOn rfl fun _ hpc' => by cases hpc'
  | checkCooldown token alg kid =>
    simp only [JwksProtocol.runSection, hpc] at hr
    split at hr
    · cases hr
      refine h.move hsub rfl h.cache (fun _ _ _ _ hpc' => by cases hpc') fun u hu => ?_
      rw [hpc] at hu
      exact hu.goOn rfl fun _ hpc' => by cases hpc'
    · split at hr <;> cases hr
      · refine h.move hsub rfl h.cache (fun _ _ _ _ hpc' => by cases hpc') fun u hu => ?_
        rw [hpc] at hu
        exact hu.goOn rfl fun _ hpc' => by cases hpc'
      · exact h.move hsub rfl h.cache (fun _ _ _ _ hpc' => by cases hpc') fun _ _ =>
          .ended rfl fun _ hpc' => by cases hpc'
  | record token alg kid outcome =>
    have hcache : ∀ kid' key, (ks.cache.record ks.clock.now outcome).1.keys.get? kid' = some key →
        Published lib events kid' key := by
      intro kid' key hget
      rw [keys_record] at hget
      cases outcome with
      | ok keys => exact h.recorded t token alg kid keys hpc kid' key hget
      | error e => exact h.cache kid' key hget
    simp only [JwksProtocol.runSection, hpc] at hr
    split at hr <;> cases hr
    · next heq =>
      rw [heq] at hcache
      refine h.move hsub rfl hcache (fun _ _ _ _ hpc' => by cases hpc') fun u hu => ?_
      rw [hpc] at hu
      exact hu.goOn rfl fun _ hpc' => by cases hpc'
    · next heq =>
      rw [heq] at hcache
      exact h.move hsub rfl hcache (fun _ _ _ _ hpc' => by cases hpc') fun _ _ =>
        .ended rfl fun _ hpc' => by cases hpc'
  | lookup token alg kid =>
    simp only [JwksProtocol.runSection, hpc] at hr
    cases hr
    refine h.move hsub rfl h.cache (fun _ _ _ _ hpc' => by cases hpc') fun u hu => ?_
    rw [hpc] at hu
    rw [KeyCache.heldKey]
    cases hkey : ks.cache.keys.get? kid with
    | some key => exact hu.verified rfl (h.cache kid key hkey)
    | none => exact .ended rfl fun _ hpc' => by cases hpc'

/-- A document is published when it arrives. -/
theorem fetchedKeys_ok {jwksUri : String} {answer : HttpAnswer (List Jwk)}
    {keys : HashMap String Key} (h : fetchedKeys lib jwksUri answer = .ok keys) :
    ∃ jwks, answer = .json jwks ∧ keys = usableKeys lib jwks := by
  cases answer with
  | json jwks =>
    refine ⟨jwks, rfl, ?_⟩
    rw [fetchedKeys, fetchJson] at h
    dsimp only at h
    split at h
    · cases h
    · exact (Except.ok.inj h).symm
  | failed e => cases h
  | status status => cases h
  | unparsable e => cases h

/-- **The keys stay sound**, with every document that arrives. -/
theorem KeysSound.step (h : KeysSound lib events ks) {l : JwksProtocol.Label}
    (hcall : ∀ t token, l ≠ .call t token) (hs : JwksProtocol.step d.jwks lib ks l = some ks') :
    Keeps d lib events ((publishes l).toList.map Event.published ++ events) ks ks' := by
  cases l with
  | call t token => exact absurd rfl (hcall t token)
  | tick time unix =>
    cases hs
    exact ⟨⟨h.cache, h.recorded⟩, fun _ _ hu => hu⟩
  | run t => exact h.run hs
  | discovered t answer =>
    simp only [JwksProtocol.step] at hs
    split at hs
    · next token alg kid hpc =>
      split at hs <;> cases hs
      · refine h.move (List.Subset.refl _) rfl h.cache (fun _ _ _ _ hpc' => by cases hpc')
          fun u hu => ?_
        rw [hpc] at hu
        exact hu.goOn rfl fun _ hpc' => by cases hpc'
      · refine h.move (List.Subset.refl _) rfl h.cache (fun _ _ _ _ hpc' => by cases hpc')
          fun u hu => ?_
        rw [hpc] at hu
        exact hu.goOn rfl fun _ hpc' => by cases hpc'
    · cases hs
  | fetched t answer =>
    simp only [JwksProtocol.step] at hs
    split at hs <;> cases hs
    next token alg kid jwksUri hpc =>
    have hsub : events ⊆ (publishes (.fetched t answer)).toList.map Event.published ++ events :=
      List.subset_append_right _ _
    have hcache : ∀ kid' key, ks.cache.keys.get? kid' = some key →
        Published lib ((publishes (.fetched t answer)).toList.map Event.published ++ events) kid'
          key :=
      fun kid' key hget => (h.cache kid' key hget).mono hsub
    refine h.move hsub rfl hcache ?_ fun u hu => ?_
    · intro token' alg' kid' keys hpc' kid'' key hget
      have hok : fetchedKeys lib jwksUri answer = .ok keys := by
        injection hpc'
      obtain ⟨jwks, rfl, rfl⟩ := fetchedKeys_ok hok
      exact ⟨jwks, List.mem_cons_self, hget⟩
    · rw [hpc] at hu
      exact hu.goOn rfl fun _ hpc' => by cases hpc'
  | drop t =>
    simp only [JwksProtocol.step] at hs
    split at hs <;> cases hs
    exact h.move (List.Subset.refl _) rfl h.cache (fun _ _ _ _ hpc' => by cases hpc') fun _ _ =>
      .ended rfl fun _ hpc' => by cases hpc'

end Keys

end McpFramework.UnknownBearer
