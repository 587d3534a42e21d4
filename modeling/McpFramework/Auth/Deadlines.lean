import McpFramework.Auth.Jwks
import McpFramework.Auth.LoginState
import McpFramework.Auth.StoreProtocol
import McpFramework.Lib.Yields
import McpFramework.Session.Store

/-!
# Auth — Deadlines

Every place that turns an expiry from outside into an `Instant`, with the panic
of `Instant + Duration`: the answers of a token endpoint (`auth/routes.rs`,
`auth/store.rs`, `auth/proxy.rs`), a validated JWT (`auth/jwks.rs`), an
introspection answer, and persisted records, read through or at boot.

The other modules model these functions without the panic. Each one here yields
what is modelled there under a condition on its input, and panics outside it.
-/

namespace McpFramework.Checked

open Lib

/-! ## Sums -/

/-- A lifetime in seconds ends at an instant. -/
def SecsFit (clock : Clock) (secs : Nat) : Prop := clock.now / 1000000000 + secs ≤ i64Max

/-- What a persisted deadline has left ends at an instant. -/
def MillisFit (clock : Clock) (deadlineMs : Nat) : Prop :=
  (clock.now + remainingUntilUnixMillis clock deadlineMs) / 1000000000 ≤ i64Max

/-- `.map(|secs| Instant::now() + Duration::from_secs(secs))`. -/
def inSecs (clock : Clock) : Option Nat → Option (Option Nat)
  | some secs => (Instant.add clock.now (Duration.fromSecs secs)).map some
  | none => some none

/-- `Instant - Duration`. -/
def instantSub (now d : Nat) : Option Int :=
  if -9223372036854775808 ≤ ((now : Int) - d) / 1000000000 then some (now - d) else none

variable {clock : Clock}

theorem add_yields (now d : Nat) :
    Yields (Instant.add now d) ((now + d) / 1000000000 ≤ i64Max) (now + d) :=
  Yields.of_ite _

theorem secsFit_iff (clock : Clock) (secs : Nat) :
    (clock.now + Duration.fromSecs secs) / 1000000000 ≤ i64Max ↔ SecsFit clock secs := by
  rw [SecsFit, Duration.fromSecs, Nat.add_mul_div_right _ _ (by decide)]

theorem inSecs_yields (clock : Clock) (secs : Option Nat) :
    Yields (inSecs clock secs) (∀ s ∈ secs, SecsFit clock s)
      (secs.map fun s => clock.now + Duration.fromSecs s) := by
  cases secs with
  | none => exact (Yields.pure none).congr (by simp)
  | some s =>
    refine ((add_yields _ _).map some).congr ?_
    rw [secsFit_iff]
    simp

/-- A record's milliseconds fit on any machine that has been up for less than
2^62 seconds. -/
theorem millisFit_of_uptime (hup : clock.now / 1000000000 < 4611686018427387904) {ms : Nat}
    (hms : ms ≤ Duration.u64Max) : MillisFit clock ms := by
  unfold MillisFit remainingUntilUnixMillis Duration.fromMillis i64Max
  unfold Duration.u64Max at hms
  omega

/-! ## Token endpoint answers -/

/-- `StoredToken::from_token_response`. -/
def fromTokenResponse (clock : Clock) (response : LoginProtocol.BasicTokenResponse) :
    Option StoredToken :=
  (inSecs clock response.expiresIn).map fun expiresAt =>
    { accessToken := response.accessToken, refreshToken := response.refreshToken
      expiresAt := expiresAt }

/-- The token that `refresh_token` stores. -/
def refreshed (clock : Clock) (refreshToken : String) (response : TokenResponse) :
    Option (Option StoredToken) :=
  match response.accessToken with
  | none => some none
  | some accessToken =>
    (inSecs clock response.expiresIn).map fun expiresAt =>
      some { accessToken := accessToken
             refreshToken := some (response.refreshToken.getD refreshToken)
             expiresAt := expiresAt }

/-- The token that a code exchange stores, in either token mode. -/
def exchanged (clock : Clock) (response : TokenResponse) : Option (Option StoredToken) :=
  match response.accessToken with
  | none => some none
  | some accessToken =>
    (inSecs clock response.expiresIn).map fun expiresAt =>
      some { accessToken := accessToken, refreshToken := response.refreshToken
             expiresAt := expiresAt }

/-- The expiries of the opaque tokens that are issued for it. -/
def issued (clock : Clock) (expiresIn : Option Nat) : Option (Nat × Nat) :=
  (Instant.add clock.now (StoreProtocol.opaqueAccessTtl expiresIn)).bind fun access =>
    (Instant.add clock.now OPAQUE_REFRESH_TTL).map fun refresh =>
      (instantToUnixMillis clock access, instantToUnixMillis clock refresh)

/-- An answer with an access token has a lifetime that fits. -/
def ResponseFits (clock : Clock) (response : TokenResponse) : Prop :=
  response.accessToken.isSome = true → ∀ s ∈ response.expiresIn, SecsFit clock s

theorem fromTokenResponse_yields (clock : Clock) (response : LoginProtocol.BasicTokenResponse) :
    Yields (fromTokenResponse clock response) (∀ s ∈ response.expiresIn, SecsFit clock s)
      (LoginProtocol.fromTokenResponse clock.now response) :=
  (inSecs_yields clock response.expiresIn).map _

theorem refreshed_yields (clock : Clock) (refreshToken : String) (response : TokenResponse) :
    Yields (refreshed clock refreshToken response) (ResponseFits clock response)
      (TokenStore.refreshed clock refreshToken response) := by
  obtain ⟨accessToken, refreshToken', expiresIn⟩ := response
  cases accessToken with
  | none => exact (Yields.pure none).congr (by simp [ResponseFits])
  | some accessToken =>
    exact ((inSecs_yields clock expiresIn).map _).congr (by simp [ResponseFits])

theorem exchanged_yields (clock : Clock) (response : TokenResponse) :
    Yields (exchanged clock response) (ResponseFits clock response)
      (response.accessToken.map fun accessToken =>
        { accessToken := accessToken, refreshToken := response.refreshToken
          expiresAt := response.expiresIn.map fun s => clock.now + Duration.fromSecs s }) := by
  obtain ⟨accessToken, refreshToken, expiresIn⟩ := response
  cases accessToken with
  | none => exact (Yields.pure none).congr (by simp [ResponseFits])
  | some accessToken =>
    exact ((inSecs_yields clock expiresIn).map _).congr (by simp [ResponseFits])

theorem opaqueAccessTtl_le (expiresIn : Option Nat) :
    StoreProtocol.opaqueAccessTtl expiresIn ≤ OPAQUE_REFRESH_TTL := by
  have hle : OPAQUE_ACCESS_TTL ≤ OPAQUE_REFRESH_TTL := by decide
  cases expiresIn with
  | none => exact hle
  | some secs => exact Nat.le_trans (Nat.min_le_right _ _) hle

/-- Opaque tokens are issued for no longer than their own lifetimes, whatever the
upstream answer says. -/
theorem issued_yields (clock : Clock) (expiresIn : Option Nat) :
    Yields (issued clock expiresIn) ((clock.now + OPAQUE_REFRESH_TTL) / 1000000000 ≤ i64Max)
      (instantToUnixMillis clock (clock.now + StoreProtocol.opaqueAccessTtl expiresIn),
        instantToUnixMillis clock (clock.now + OPAQUE_REFRESH_TTL)) := by
  refine ((add_yields _ _).bind fun _ => (add_yields _ _).map _).congr ?_
  have hle := opaqueAccessTtl_le expiresIn
  refine ⟨fun h => h.2, fun h => ⟨Nat.le_trans (Nat.div_le_div_right ?_) h, h⟩⟩
  omega

/-! ## Validations -/

/-- The `exp` of a validated JWT. -/
def remainingFromUnixSecs (clock : Clock) (exp : Nat) : Option (Option Nat) :=
  let now := clock.unix / Duration.fromSecs 1
  if now ≤ exp then (Instant.add clock.now (Duration.fromSecs (exp - now))).map some
  else some none

inductive TokenIntrospection where
  | inactive
  | active (expiresAt : Option Nat)
deriving DecidableEq

/-- What is made of the `active` and `exp` of an introspection answer. -/
def introspected (clock : Clock) (active : Option Bool) (exp : Option Nat) :
    Option TokenIntrospection :=
  if active ≠ some true then some .inactive
  else
    match exp with
    | none => some (.active none)
    | some exp =>
      let now := clock.unix / Duration.fromSecs 1
      if exp < now then some .inactive
      else
        let remaining := exp - now
        if remaining = 0 then some .inactive
        else
          (Instant.add clock.now (Duration.fromSecs remaining)).map fun expiresAt =>
            .active (some expiresAt)

/-- What an `exp` has left fits. -/
def ExpFits (clock : Clock) (exp : Nat) : Prop :=
  clock.unix / Duration.fromSecs 1 ≤ exp → SecsFit clock (exp - clock.unix / Duration.fromSecs 1)

theorem remainingFromUnixSecs_yields (clock : Clock) (exp : Nat) :
    Yields (remainingFromUnixSecs clock exp) (ExpFits clock exp)
      (McpFramework.remainingFromUnixSecs clock exp) := by
  unfold remainingFromUnixSecs McpFramework.remainingFromUnixSecs
  by_cases h : clock.unix / Duration.fromSecs 1 ≤ exp
  · rw [if_pos h, if_pos h]
    refine ((add_yields _ _).map some).congr ?_
    rw [secsFit_iff]
    simp [ExpFits, h]
  · rw [if_neg h, if_neg h]
    exact (Yields.pure none).congr (by simp [ExpFits, h])

theorem introspected_isSome_iff (clock : Clock) (active : Option Bool) (exp : Option Nat) :
    (introspected clock active exp).isSome = true ↔
      (active = some true → ∀ e ∈ exp, clock.unix / Duration.fromSecs 1 ≠ e → ExpFits clock e) := by
  unfold introspected
  by_cases hactive : active = some true
  · rw [if_neg (not_not.mpr hactive)]
    cases exp with
    | none => simp
    | some exp =>
      dsimp only
      split
      · rename_i hpast
        simp [ExpFits, hactive, Nat.not_le_of_lt hpast]
      · rename_i hpast
        split
        · rename_i hzero
          have heq : clock.unix / Duration.fromSecs 1 = exp := by omega
          simp [hactive, heq]
        · rename_i hzero
          have hne : clock.unix / Duration.fromSecs 1 ≠ exp := by omega
          rw [((add_yields _ _).map _).isSome_iff, secsFit_iff]
          simp [ExpFits, hactive, hne, Nat.le_of_not_lt hpast]
  · simp [hactive]

/-! ## Persisted records -/

def intoStored (clock : Clock) (token : PersistedToken) : Option StoredToken :=
  (match token.expiresAtUnixMs with
    | some deadline =>
      (Instant.add clock.now (remainingUntilUnixMillis clock deadline)).map some
    | none => inSecs clock token.expiresInSecs).map fun expiresAt =>
    { accessToken := token.accessToken, refreshToken := token.refreshToken
      expiresAt := expiresAt }

/-- `OpaqueIndex::insert`. -/
def insert (idx : OpaqueIndex) (clock : Clock) (sessionId : String)
    (mapping : PersistedOpaqueMapping) : Option OpaqueIndex :=
  let accessRemaining := remainingUntilUnixMillis clock mapping.accessExpiresAtUnixMs
  let refreshRemaining := remainingUntilUnixMillis clock mapping.refreshExpiresAtUnixMs
  if refreshRemaining = 0 then some idx
  else
    let idx := (idx.removeSession sessionId).1
    (if accessRemaining = 0 then some idx
      else
        (Instant.add clock.now accessRemaining).map fun expiresAt =>
          idx.setBinding .access mapping.opaqueAccess
            (some ⟨sessionId, expiresAt, mapping.issue⟩)).bind fun idx =>
      (Instant.add clock.now refreshRemaining).map fun expiresAt =>
        let idx := idx.setBinding .refresh mapping.opaqueRefresh
          (some ⟨sessionId, expiresAt, mapping.issue⟩)
        { idx with
          sessionToOpaques := Function.update idx.sessionToOpaques sessionId (some mapping) }

/-- The legacy seconds of a record fit, or its milliseconds. -/
def RecordFits (clock : Clock) (token : PersistedToken) : Prop :=
  match token.expiresAtUnixMs with
  | some deadline => MillisFit clock deadline
  | none => ∀ s ∈ token.expiresInSecs, SecsFit clock s

/-- What a mapping that can still be refreshed has left fits. -/
def MappingFits (clock : Clock) (mapping : PersistedOpaqueMapping) : Prop :=
  remainingUntilUnixMillis clock mapping.refreshExpiresAtUnixMs ≠ 0 →
    MillisFit clock mapping.accessExpiresAtUnixMs ∧ MillisFit clock mapping.refreshExpiresAtUnixMs

theorem intoStored_yields (clock : Clock) (token : PersistedToken) :
    Yields (intoStored clock token) (RecordFits clock token) (token.intoStored clock) := by
  obtain ⟨accessToken, refreshToken, expiresAtUnixMs, expiresInSecs⟩ := token
  cases expiresAtUnixMs with
  | some deadline => exact ((add_yields _ _).map some).map _
  | none => exact (inSecs_yields clock expiresInSecs).map _

theorem insert_yields (idx : OpaqueIndex) (clock : Clock) (sessionId : String)
    (mapping : PersistedOpaqueMapping) :
    Yields (insert idx clock sessionId mapping) (MappingFits clock mapping)
      (idx.insert clock sessionId mapping) := by
  unfold insert OpaqueIndex.insert
  by_cases hrefresh : remainingUntilUnixMillis clock mapping.refreshExpiresAtUnixMs = 0
  · rw [if_pos hrefresh, if_pos hrefresh]
    exact (Yields.pure idx).congr (by simp [MappingFits, hrefresh])
  · rw [if_neg hrefresh, if_neg hrefresh]
    dsimp only
    by_cases haccess : remainingUntilUnixMillis clock mapping.accessExpiresAtUnixMs = 0
    · rw [if_pos haccess, if_pos haccess]
      refine ((Yields.pure _).bind fun _ => (add_yields _ _).map _).congr ?_
      -- An access token without time left needs the instant of now alone.
      have hnow : MillisFit clock mapping.refreshExpiresAtUnixMs →
          MillisFit clock mapping.accessExpiresAtUnixMs := by
        unfold MillisFit
        rw [haccess]
        omega
      exact ⟨fun h _ => ⟨hnow h.2, h.2⟩, fun h => ⟨trivial, (h hrefresh).2⟩⟩
    · rw [if_neg haccess, if_neg haccess]
      refine (Yields.bind (P := MillisFit clock mapping.accessExpiresAtUnixMs)
        (Q := MillisFit clock mapping.refreshExpiresAtUnixMs) ((add_yields _ _).map _)
        fun _ => (add_yields _ _).map _).congr ?_
      exact ⟨fun h _ => h, fun h => h hrefresh⟩

/-! ## Boot -/

/-- The loop over the persisted tokens: what is expired and cannot be refreshed is
dropped. -/
def loadTokens (clock : Clock) :
    List (String × PersistedToken) → Option (List (String × StoredToken))
  | [] => some []
  | (key, persisted) :: records =>
    (intoStored clock persisted).bind fun token =>
      (loadTokens clock records).map fun entries =>
        if TokenStore.purgeable clock.now token then entries else (key, token) :: entries

/-- The loop over the persisted mappings: an orphan is dropped, and one that
cannot be refreshed any more. -/
def loadMappings (clock : Clock) (validSessions : List String) :
    OpaqueIndex → List (String × PersistedOpaqueMapping) → Option OpaqueIndex
  | idx, [] => some idx
  | idx, (sessionId, mapping) :: mappings =>
    (if sessionId ∉ validSessions then some idx
      else if remainingUntilUnixMillis clock mapping.refreshExpiresAtUnixMs = 0 then some idx
      else insert idx clock sessionId mapping).bind fun idx =>
      loadMappings clock validSessions idx mappings

/-- `load_persisted`, with the sessions that have a token in memory before. -/
def loadPersisted (clock : Clock) (memory : List String) (idx : OpaqueIndex)
    (tokens : List (String × PersistedToken)) (mappings : List (String × PersistedOpaqueMapping)) :
    Option (List (String × StoredToken) × OpaqueIndex) :=
  (loadTokens clock tokens).bind fun entries =>
    (loadMappings clock (memory ++ entries.map (·.1)) idx mappings).map fun idx => (entries, idx)

/-- The tokens that a boot keeps. -/
def survivors (clock : Clock) (tokens : List (String × PersistedToken)) :
    List (String × StoredToken) :=
  (tokens.filter fun r => r.2.live clock).map fun r => (r.1, r.2.intoStored clock)

theorem loadTokens_yields (clock : Clock) (records : List (String × PersistedToken)) :
    Yields (loadTokens clock records) (∀ r ∈ records, RecordFits clock r.2)
      (survivors clock records) := by
  induction records with
  | nil => exact (Yields.pure []).congr (by simp)
  | cons r records ih =>
    obtain ⟨key, persisted⟩ := r
    have hcons : survivors clock ((key, persisted) :: records) =
        if TokenStore.purgeable clock.now (persisted.intoStored clock) then survivors clock records
        else (key, persisted.intoStored clock) :: survivors clock records := by
      simp only [survivors, List.filter_cons, PersistedToken.live]
      split <;> simp_all
    rw [hcons]
    refine ((intoStored_yields clock persisted).bind fun _ => ih.map _).congr ?_
    simp

/-- The index after the mappings of these sessions. -/
def insertAll (clock : Clock) (validSessions : List String) (idx : OpaqueIndex)
    (mappings : List (String × PersistedOpaqueMapping)) : OpaqueIndex :=
  mappings.foldl (fun idx e => if e.1 ∈ validSessions then idx.insert clock e.1 e.2 else idx) idx

theorem loadMappings_yields (clock : Clock) (validSessions : List String) (idx : OpaqueIndex)
    (mappings : List (String × PersistedOpaqueMapping)) :
    Yields (loadMappings clock validSessions idx mappings)
      (∀ e ∈ mappings, e.1 ∈ validSessions → MappingFits clock e.2)
      (insertAll clock validSessions idx mappings) := by
  induction mappings generalizing idx with
  | nil => exact (Yields.pure idx).congr (by simp)
  | cons e mappings ih =>
    obtain ⟨sessionId, mapping⟩ := e
    have hone : Yields
        (if sessionId ∉ validSessions then some idx
          else if remainingUntilUnixMillis clock mapping.refreshExpiresAtUnixMs = 0 then some idx
          else insert idx clock sessionId mapping)
        (sessionId ∈ validSessions → MappingFits clock mapping)
        (if sessionId ∈ validSessions then idx.insert clock sessionId mapping else idx) := by
      by_cases hvalid : sessionId ∈ validSessions
      · rw [if_neg (not_not.mpr hvalid), if_pos hvalid]
        split
        · rename_i hexpired
          rw [OpaqueIndex.insert_of_expired hexpired]
          exact (Yields.pure idx).congr (by simp [MappingFits, hexpired])
        · exact (insert_yields idx clock sessionId mapping).congr (by simp [hvalid])
      · rw [if_pos hvalid, if_neg hvalid]
        exact (Yields.pure idx).congr (by simp [hvalid])
    refine (hone.bind fun _ => ih _).congr ?_
    simp

theorem loadPersisted_yields (clock : Clock) (memory : List String) (idx : OpaqueIndex)
    (tokens : List (String × PersistedToken))
    (mappings : List (String × PersistedOpaqueMapping)) :
    Yields (loadPersisted clock memory idx tokens mappings)
      ((∀ r ∈ tokens, RecordFits clock r.2) ∧
        ∀ e ∈ mappings, e.1 ∈ memory ++ (survivors clock tokens).map (·.1) →
          MappingFits clock e.2)
      (survivors clock tokens,
        insertAll clock (memory ++ (survivors clock tokens).map (·.1)) idx mappings) :=
  (loadTokens_yields clock tokens).bind fun _ => (loadMappings_yields clock _ idx mappings).map _

/-! ## Sessions at boot -/

section Sessions

variable {T : Type}

/-- The last access that `SessionStore::load_persisted` computes for a record, if
it has time left. -/
def sessionLastAccess (clock : Clock) (ttl : Nat) (p : PersistedSession T) :
    Option (Option Int) :=
  let remaining := p.remaining clock
  if remaining = 0 then some none
  else (instantSub clock.now (ttl - min remaining ttl)).map some

def loadSessions (clock : Clock) (ttl : Nat) :
    List (String × PersistedSession T) → Option (List (String × T × Int))
  | [] => some []
  | (key, p) :: records =>
    (sessionLastAccess clock ttl p).bind fun lastAccess =>
      (loadSessions clock ttl records).map fun entries =>
        match lastAccess with
        | some lastAccess => (key, p.data, lastAccess) :: entries
        | none => entries

/-- The last access is an instant. -/
def SessionFits (clock : Clock) (ttl : Nat) (p : PersistedSession T) : Prop :=
  p.remaining clock ≠ 0 → -9223372036854775808 ≤
    ((clock.now : Int) - (ttl - min (p.remaining clock) ttl : Nat)) / 1000000000

/-- No record of a session has a last access out of range, unless the lifetime of
sessions has. -/
theorem sessionFits_of_ttl {ttl : Nat} (h : ttl / 1000000000 ≤ i64Max) (p : PersistedSession T) :
    SessionFits clock ttl p := by
  intro _
  unfold i64Max at h
  omega

theorem loadSessions_isSome_iff (clock : Clock) (ttl : Nat)
    (records : List (String × PersistedSession T)) :
    (loadSessions clock ttl records).isSome = true ↔
      ∀ r ∈ records, SessionFits clock ttl r.2 := by
  induction records with
  | nil => simp [loadSessions]
  | cons r records ih =>
    obtain ⟨key, p⟩ := r
    have hone : (sessionLastAccess clock ttl p).isSome = true ↔ SessionFits clock ttl p := by
      unfold sessionLastAccess SessionFits instantSub
      by_cases hzero : p.remaining clock = 0
      · simp [hzero]
      · rw [if_neg hzero, Option.isSome_map]
        split <;> simp_all
    rw [loadSessions]
    cases hlast : sessionLastAccess clock ttl p with
    | none =>
      rw [hlast] at hone
      simp_all
    | some lastAccess =>
      rw [hlast] at hone
      simp_all

end Sessions

/-! ## All of them -/

/-- The places where an expiry from outside becomes an instant, each with what it
reads. -/
inductive ExpiryPath (T : Type) where
  /-- The code exchange of a server-side login. -/
  | login (response : LoginProtocol.BasicTokenResponse)
  /-- An upstream refresh. -/
  | refresh (refreshToken : String) (response : TokenResponse)
  /-- A token request that was answered, in passthrough mode. -/
  | passthrough (response : TokenResponse)
  /-- The same in opaque mode. -/
  | opaqueExchange (response : TokenResponse)
  /-- The opaque tokens that are issued, at an exchange or a refresh. -/
  | opaqueIssue (expiresIn : Option Nat)
  | jwks (exp : Nat)
  | introspection (active : Option Bool) (exp : Option Nat)
  /-- Read-through of a token, and of an opaque mapping. -/
  | readToken (record : PersistedToken)
  | readMapping (idx : OpaqueIndex) (sessionId : String) (mapping : PersistedOpaqueMapping)
  /-- The boot load of the token store, and of the session store. -/
  | boot (memory : List String) (idx : OpaqueIndex) (tokens : List (String × PersistedToken))
      (mappings : List (String × PersistedOpaqueMapping))
  | bootSessions (ttl : Nat) (records : List (String × PersistedSession T))

namespace ExpiryPath

variable {T : Type}

/-- No sum on the path panics. -/
def completes (clock : Clock) : ExpiryPath T → Bool
  | .login response => (fromTokenResponse clock response).isSome
  | .refresh refreshToken response => (refreshed clock refreshToken response).isSome
  | .passthrough response => (exchanged clock response).isSome
  | .opaqueExchange response => (exchanged clock response).isSome
  | .opaqueIssue expiresIn => (issued clock expiresIn).isSome
  | .jwks exp => (remainingFromUnixSecs clock exp).isSome
  | .introspection active exp => (introspected clock active exp).isSome
  | .readToken record => (intoStored clock record).isSome
  | .readMapping idx sessionId mapping => (insert idx clock sessionId mapping).isSome
  | .boot memory idx tokens mappings => (loadPersisted clock memory idx tokens mappings).isSome
  | .bootSessions ttl records => (loadSessions clock ttl records).isSome

/-- The input has its expiry within the instants. -/
def InRange (clock : Clock) : ExpiryPath T → Prop
  | .login response => ∀ s ∈ response.expiresIn, SecsFit clock s
  | .refresh _ response => ResponseFits clock response
  | .passthrough response => ResponseFits clock response
  | .opaqueExchange response => ResponseFits clock response
  | .opaqueIssue _ => (clock.now + OPAQUE_REFRESH_TTL) / 1000000000 ≤ i64Max
  | .jwks exp => ExpFits clock exp
  | .introspection active exp =>
    active = some true → ∀ e ∈ exp, clock.unix / Duration.fromSecs 1 ≠ e → ExpFits clock e
  | .readToken record => RecordFits clock record
  | .readMapping _ _ mapping => MappingFits clock mapping
  | .boot memory _ tokens mappings =>
    (∀ r ∈ tokens, RecordFits clock r.2) ∧
      ∀ e ∈ mappings, e.1 ∈ memory ++ (survivors clock tokens).map (·.1) → MappingFits clock e.2
  | .bootSessions ttl records => ∀ r ∈ records, SessionFits clock ttl r.2

end ExpiryPath

/-- **Where expiries fit.** A path completes exactly when the seconds of its
lifetime, or what its record has left, end at an instant. Milliseconds always do
on a machine that has been up for less than 2^62 seconds, as do issued opaque
tokens and the sessions of a store whose own lifetime fits; seconds need not. -/
theorem completes_iff_inRange {T : Type} (clock : Clock) :
    (∀ path : ExpiryPath T, path.completes clock = true ↔ path.InRange clock) ∧
      (clock.now / 1000000000 < 4611686018427387904 →
        (∀ ms, ms ≤ Duration.u64Max → MillisFit clock ms) ∧
          ∀ expiresIn, (ExpiryPath.opaqueIssue expiresIn : ExpiryPath T).InRange clock) ∧
      ∀ ttl, ttl / 1000000000 ≤ i64Max → ∀ p : PersistedSession T, SessionFits clock ttl p := by
  refine ⟨fun path => ?_, fun hup => ⟨fun ms hms => millisFit_of_uptime hup hms, fun _ => ?_⟩,
    fun ttl httl p => sessionFits_of_ttl httl p⟩
  · cases path with
    | login response => exact (fromTokenResponse_yields clock response).isSome_iff
    | refresh refreshToken response => exact (refreshed_yields clock refreshToken response).isSome_iff
    | passthrough response => exact (exchanged_yields clock response).isSome_iff
    | opaqueExchange response => exact (exchanged_yields clock response).isSome_iff
    | opaqueIssue expiresIn => exact (issued_yields clock expiresIn).isSome_iff
    | jwks exp => exact (remainingFromUnixSecs_yields clock exp).isSome_iff
    | introspection active exp => exact introspected_isSome_iff clock active exp
    | readToken record => exact (intoStored_yields clock record).isSome_iff
    | readMapping idx sessionId mapping =>
      exact (insert_yields idx clock sessionId mapping).isSome_iff
    | boot memory idx tokens mappings =>
      exact (loadPersisted_yields clock memory idx tokens mappings).isSome_iff
    | bootSessions ttl records => exact loadSessions_isSome_iff clock ttl records
  · show (clock.now + OPAQUE_REFRESH_TTL) / 1000000000 ≤ i64Max
    unfold OPAQUE_REFRESH_TTL Duration.fromSecs i64Max
    omega

/-- A token endpoint that answers a refresh with `u64::MAX` seconds. -/
theorem refresh_of_largest_lifetime_panics :
    ¬ ∀ secs, secs ≤ Duration.u64Max → ∀ clock,
      (ExpiryPath.refresh "r" ⟨some "a", none, some secs⟩ : ExpiryPath Unit).completes clock =
        true := by
  intro h
  have hmax := h Duration.u64Max (Nat.le_refl _) ⟨0, 0⟩
  revert hmax
  decide

end McpFramework.Checked
