import McpFramework.Auth.Middleware

/-!
# Auth — BearerRejection

What a rejected bearer leaves behind. Until a bearer is accepted the middleware
only looks entries up, and a lookup writes nothing but the cached copy of a
persisted record.
-/

namespace McpFramework

open Lib

/-! ## Reading through -/

/-- The stored tokens are the same, but for persisted records that are cached
now. -/
structure ReadThrough (clock : Clock) (st st' : TokenStore) : Prop where
  persistence : st'.persistence = st.persistence
  grantRefreshIndex : st'.grantRefreshIndex = st.grantRefreshIndex
  refreshConfig : st'.refreshConfig = st.refreshConfig
  tokens : ∀ k, st'.tokens.get? k = st.tokens.get? k ∨
    (st.tokens.get? k = none ∧ ∃ p, st.record k = some p ∧
      st'.tokens.get? k = some (p.intoStored clock))

variable {clock : Clock} {st st' st'' : TokenStore}

theorem ReadThrough.trans (h : ReadThrough clock st st') (h' : ReadThrough clock st' st'') :
    ReadThrough clock st st'' where
  persistence := h'.persistence.trans h.persistence
  grantRefreshIndex := h'.grantRefreshIndex.trans h.grantRefreshIndex
  refreshConfig := h'.refreshConfig.trans h.refreshConfig
  tokens k := by
    rcases h'.tokens k with hsame | ⟨hnone, p, hp, hnew⟩
    · rw [hsame]
      exact h.tokens k
    · -- What is cached in the second read was not cached by the first.
      rw [TokenStore.record_congr h.persistence] at hp
      rcases h.tokens k with hsame | ⟨-, q, -, hcached⟩
      · exact .inr ⟨hsame ▸ hnone, p, hp, hnew⟩
      · rw [hcached] at hnone
        cases hnone

theorem readThrough_getTokenRaw (st : TokenStore) (clock : Clock) (k : String) :
    ReadThrough clock st (st.getTokenRaw clock k).1 where
  persistence := TokenStore.getTokenRaw_persistence
  grantRefreshIndex := by
    unfold TokenStore.getTokenRaw
    split
    · rfl
    · split <;> rfl
  refreshConfig := TokenStore.getTokenRaw_refreshConfig
  tokens k' := by
    rw [TokenStore.getTokenRaw_tokens_get?]
    split
    · rename_i hk
      subst hk
      unfold TokenStore.lookup
      cases hmem : st.tokens.get? k' with
      | some token => exact .inl rfl
      | none =>
        cases hrec : st.record k' with
        | none =>
          left
          simp [TokenStore.loadTokenFromBackend, hrec]
        | some p =>
          refine .inr ⟨rfl, p, rfl, ?_⟩
          simp [TokenStore.loadTokenFromBackend, hrec]
    · exact .inl rfl

theorem readThrough_sight (c : Codec) (st : TokenStore) (clock : Clock)
    (sessionId token : String) :
    ReadThrough clock st (sight c st clock sessionId token).1 := by
  unfold sight
  dsimp only [TokenStore.peekToken]
  split
  · exact (readThrough_getTokenRaw st clock sessionId).trans
      (readThrough_getTokenRaw _ clock (credentialSessionKey c token))
  · exact readThrough_getTokenRaw st clock sessionId

/-! ## Rejections -/

/-- Why a bearer is rejected before anything is done with it. -/
inductive Rejected (c : Codec) (env : Surroundings) (s : Sighting) (token : String) : Prop where
  /-- No entry knows it, and it is another principal's. -/
  | otherPrincipal (unknown : s.matchingToken = none)
      (mismatch : s.principalMismatch c token = true)
  /-- No entry knows it, and it is not validated. -/
  | notValidated (unknown : s.matchingToken = none)
      (invalid : env.validateUnknownBearer token = none)
  /-- It has expired, and neither its entry nor the session's has a refresh token. -/
  | notRefreshable {expiry : Option Nat} (accepted : validatedExpiry env s token = some expiry)
      (expired : s.tokenIsExpired c env.clock token expiry = true)
      (unreachable : s.hasRefresh = false)

/-- **A rejected bearer leaves the stored tokens alone**, in memory and in the
backend, whatever the store holds. -/
theorem rejected_bearer_writes_nothing (c : Codec) (env : Surroundings) (st : TokenStore)
    (request : Request) (token : String) (ht : bearerToken request = some token)
    (h : Rejected c env
      (sight c st env.clock (resolveOrDeriveSessionId c request token) token).2 token) :
    let r := bearerAuthMiddleware c env st request
    r.outcome = .unauthorized ∧ ReadThrough env.clock st r.store := by
  have hread := readThrough_sight c st env.clock (resolveOrDeriveSessionId c request token) token
  unfold bearerAuthMiddleware
  simp only [ht]
  generalize sight c st env.clock (resolveOrDeriveSessionId c request token) token = r at h hread ⊢
  cases hforeign : r.2.principalMismatch c token with
  | true => exact ⟨rfl, hread⟩
  | false =>
    simp only [Bool.false_eq_true, if_false]
    cases h with
    | otherPrincipal unknown mismatch =>
      rw [hforeign] at mismatch
      cases mismatch
    | notValidated unknown invalid =>
      have hnone : validatedExpiry env r.2 token = none := by
        rw [validatedExpiry, unknown]
        exact invalid
      rw [hnone]
      exact ⟨rfl, hread⟩
    | notRefreshable accepted expired unreachable =>
      rw [accepted]
      simp only [serve, expired, unreachable, Bool.not_false, Bool.and_self, if_true]
      exact ⟨trivial, hread⟩

/-- A forged bearer on a session that is persisted and not cached. -/
theorem forged_bearer_writes_nothing :
    let st := TokenStore.new true
      (some ⟨HashMap.empty.insert "S" ⟨"access", some "refresh", none, none⟩, HashMap.empty⟩)
    let env : Surroundings := ⟨⟨0, 0⟩, fun _ => none, fun _ => none⟩
    ReadThrough ⟨0, 0⟩ st
      (bearerAuthMiddleware ⟨fun _ => none, fun _ => []⟩ env st
        (Request.ofBearer "forged" (some "S"))).store := by
  intro st env
  exact (rejected_bearer_writes_nothing _ env st (Request.ofBearer "forged" (some "S")) "forged"
    (by decide +kernel) (.notValidated (by decide +kernel) rfl)).2

end McpFramework
