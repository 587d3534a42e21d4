import McpFramework.Auth.Middleware
import McpFramework.Lib.LastWriter

/-!
# Auth — BearerOrder

The bearers of one grant in the order in which they happen to be delivered. The
entry of a grant that holds refresh material is a register that keeps the newest
bearer by its `iat`: a delayed request does not roll it back, and the refresh
token is carried from one bearer to the next.
-/

namespace McpFramework

open Lib

variable (c : Codec)

/-- A request with a bearer and no session, and what it meets. -/
structure Delivery where
  env : Surroundings
  token : String

def deliver (st : TokenStore) (d : Delivery) : TokenStore :=
  (bearerAuthMiddleware c d.env st (Request.ofBearer d.token none)).store

def deliverAll (st : TokenStore) (ds : List Delivery) : TokenStore := ds.foldl (deliver c) st

/-- The bearer is validated and has not expired when it is delivered. -/
structure Delivery.Accepted (d : Delivery) : Prop where
  validated : ∃ expiry, d.env.validateUnknownBearer d.token = some expiry ∧
    StoredToken.isExpired ⟨d.token, none, expiry⟩ d.env.clock.now = false
  unexpired : jwtIsExpired c d.env.clock d.token ≠ some true

/-- When a token was issued, as its `iat` has it. -/
def issuedAt (token : String) : Nat := (jwtTimestamp c token "iat").getD 0

/-- Tokens of the grant under a key, each of which says when it was issued. -/
structure OfGrant (grantKey : String) (tokens : List String) : Prop where
  key : ∀ token ∈ tokens, credentialSessionKey c token = grantKey
  issued : ∀ token ∈ tokens, (jwtTimestamp c token "iat").isSome = true
  distinct : (tokens.map (issuedAt c)).Nodup

/-- The entry of a key holds these two tokens, whenever it is read. -/
def Holds (st : TokenStore) (k accessToken refreshToken : String) : Prop :=
  ∀ clock, ∃ e, st.lookup clock k = some e ∧ e.accessToken = accessToken ∧
    e.refreshToken = some refreshToken

variable {c} {st : TokenStore} {k held refreshToken : String} {d : Delivery}
  {tokens : List String}

/-! ## The tokens of a grant -/

theorem OfGrant.sublist {tokens' : List String} (h : OfGrant c k tokens)
    (hs : tokens'.Sublist tokens) : OfGrant c k tokens' where
  key token htoken := h.key token (hs.subset htoken)
  issued token htoken := h.issued token (hs.subset htoken)
  distinct := h.distinct.sublist (hs.map (issuedAt c))

theorem OfGrant.perm {tokens' : List String} (h : OfGrant c k tokens)
    (hp : tokens.Perm tokens') : OfGrant c k tokens' where
  key token htoken := h.key token (hp.mem_iff.mpr htoken)
  issued token htoken := h.issued token (hp.mem_iff.mpr htoken)
  distinct := (hp.map (issuedAt c)).nodup_iff.mp h.distinct

/-! ## Reading -/

/-- The tokens of an entry do not depend on when it is read. -/
theorem holds_of_lookup {clock : Clock} {e : StoredToken} (he : st.lookup clock k = some e)
    (hrt : e.refreshToken = some refreshToken) : Holds st k e.accessToken refreshToken := by
  intro clock'
  unfold TokenStore.lookup at he ⊢
  cases hmem : st.tokens.get? k with
  | some token =>
    rw [hmem] at he
    cases he
    exact ⟨e, rfl, rfl, hrt⟩
  | none =>
    rw [hmem] at he
    obtain ⟨p, hp, rfl⟩ := Option.map_eq_some_iff.mp he
    refine ⟨p.intoStored clock', ?_, rfl, hrt⟩
    rw [TokenStore.loadTokenFromBackend, hp, Option.map_some]

theorem bearerToken_ofBearer {token : String} (h : token ≠ "") (sid : Option String) :
    bearerToken (Request.ofBearer token sid) = some token := by
  have hstrip : stripPrefix? ("Bearer " ++ token) BEARER_PREFIX = some token :=
    stripPrefix?_append BEARER_PREFIX token
  simp [bearerToken, Request.ofBearer, HeaderValue.toStr, hstrip, h]

/-- A token that says when it was issued is not empty. -/
theorem ne_empty_of_issued {token : String} (h : (jwtTimestamp c token "iat").isSome = true) :
    token ≠ "" := by
  rintro rfl
  have hpayload : jwtPayload c "" = none := by
    unfold jwtPayload
    rfl
  rw [jwtTimestamp, hpayload] at h
  cases h

theorem jwtIsStrictlyNewer_of_issued {new old : String}
    (hnew : (jwtTimestamp c new "iat").isSome = true)
    (hold : (jwtTimestamp c old "iat").isSome = true) :
    jwtIsStrictlyNewer c new old = some (decide (issuedAt c old < issuedAt c new)) := by
  obtain ⟨i, hi⟩ := Option.isSome_iff_exists.mp hnew
  obtain ⟨j, hj⟩ := Option.isSome_iff_exists.mp hold
  simp only [jwtIsStrictlyNewer, issuedAt, hi, hj, Option.getD_some, gt_iff_lt]

/-! ## Deliveries -/

/-- One delivery: the entry holds the newer of the two bearers, with the refresh
token it had. -/
theorem Holds.deliver (h : Holds st k held refreshToken) (hd : d.Accepted c)
    (hg : OfGrant c k [held, d.token]) :
    Holds (McpFramework.deliver c st d) k (keepNewer (issuedAt c) held d.token) refreshToken := by
  have hissued := hg.issued d.token (by simp)
  have hkey := hg.key d.token (by simp)
  obtain ⟨e, he, rfl, hrt⟩ := h d.env.clock
  have hne : e.accessToken ≠ d.token := by
    intro heq
    have hdistinct := hg.distinct
    rw [heq] at hdistinct
    simp at hdistinct
  obtain ⟨expiry, hvalid, hlive⟩ := hd.validated
  have hseen : (sight c st d.env.clock k d.token).2 = ⟨some e, none, none⟩ := by
    rw [sight_of_unknown he hne, hkey]
    simp
  have hprincipal : samePrincipal c d.token e.accessToken = true := by
    rw [samePrincipal, hkey, hg.key e.accessToken (by simp)]
    simp
  have hexpired : Sighting.tokenIsExpired c ⟨some e, none, none⟩ d.env.clock d.token expiry =
      false := by
    have hjwt : (jwtIsExpired c d.env.clock d.token).getD false = false :=
      Bool.eq_false_iff.mpr (mt getD_false_iff.mp hd.unexpired)
    simp [Sighting.tokenIsExpired, Sighting.matchingToken, hlive, hjwt]
  have hstore : McpFramework.deliver c st d =
      writeBack c d.env (sight c st d.env.clock k d.token).1 ⟨some e, none, none⟩ k d.token
        expiry := by
    unfold McpFramework.deliver bearerAuthMiddleware
    rw [bearerToken_ofBearer (ne_empty_of_issued hissued)]
    have hsession : resolveOrDeriveSessionId c (Request.ofBearer d.token none) d.token = k := hkey
    simp [hsession, hseen, Sighting.principalMismatch, hprincipal, validatedExpiry,
      Sighting.matchingToken, hvalid, serve, hexpired, finish]
  have hnewer := jwtIsStrictlyNewer_of_issued hissued (hg.issued e.accessToken (by simp))
  rw [hstore]
  unfold writeBack keepNewer
  simp only [Sighting.needsStore, Sighting.replacement, Sighting.matchingToken, hrt, hnewer,
    Option.or_none, Option.filter, Option.isSome_some, if_true, Option.getD_some,
    decide_eq_true_eq, ne_eq, hne, not_false_eq_true, decide_true]
  by_cases hlater : issuedAt c e.accessToken < issuedAt c d.token
  · simp only [hlater, if_true]
    refine holds_of_lookup (e := ⟨d.token, some refreshToken, expiry.or e.expiresAt⟩)
      (TokenStore.lookup_storeToken _ |>.trans (if_pos rfl)) rfl
  · simp only [hlater, if_false]
    exact holds_of_lookup (by rw [lookup_sight, he]) hrt

/-- Any number of deliveries: the entry is the register of the bearers. -/
theorem Holds.deliverAll {ds : List Delivery} (h : Holds st k held refreshToken)
    (hds : ∀ d ∈ ds, d.Accepted c) (hg : OfGrant c k (held :: ds.map (·.token))) :
    Holds (McpFramework.deliverAll c st ds) k
      ((ds.map (·.token)).foldl (keepNewer (issuedAt c)) held) refreshToken := by
  induction ds generalizing st held with
  | nil => exact h
  | cons d ds ih =>
    have hfirst : OfGrant c k [held, d.token] :=
      hg.sublist (((List.nil_sublist _).cons_cons _).cons_cons _)
    have hrest : OfGrant c k (keepNewer (issuedAt c) held d.token :: ds.map (·.token)) := by
      rcases keepNewer_mem (issuedAt c) held d.token with hkept | hkept
      · rw [hkept]
        exact hg.sublist (((List.Sublist.refl _).cons _).cons_cons _)
      · rw [hkept]
        exact hg.sublist ((List.Sublist.refl _).cons _)
    exact ih (h.deliver (hds d List.mem_cons_self) hfirst)
      (fun d' hd' => hds d' (List.mem_cons_of_mem d hd')) hrest

/-- **The order of delivery does not matter**: once all the bearers of a grant
have been delivered its entry holds the newest of them and of the one it held,
with the refresh token it had. -/
theorem delivery_order_irrelevant (c : Codec) (st : TokenStore) (clock : Clock) (k : String)
    (e : StoredToken) (refreshToken : String) (tokens : List String)
    (he : st.lookup clock k = some e) (hrt : e.refreshToken = some refreshToken)
    (hg : OfGrant c k (e.accessToken :: tokens)) :
    ∃ newest, Newest (issuedAt c) newest (e.accessToken :: tokens) ∧
      ∀ ds : List Delivery, (ds.map (·.token)).Perm tokens → (∀ d ∈ ds, d.Accepted c) →
        Holds (deliverAll c st ds) k newest refreshToken := by
  refine ⟨tokens.foldl (keepNewer (issuedAt c)) e.accessToken,
    newest_foldl e.accessToken tokens, ?_⟩
  intro ds hperm hds
  have hgrant : OfGrant c k (e.accessToken :: ds.map (·.token)) := hg.perm (hperm.symm.cons _)
  rw [← foldl_keepNewer_perm hg.distinct hperm]
  exact (holds_of_lookup he hrt).deliverAll hds hgrant

/-! ## A delayed bearer -/

namespace ThreeBearers

/-- The header `{"alg":"RS256"}` and the payloads `{"sub":"alice","iat":100}`,
with 200 and with 300; the digest is of `alice`. -/
def codec : Codec where
  decode segment :=
    if segment = "eyJhbGciOiJSUzI1NiJ9" then some (.obj [("alg", .str "RS256")])
    else if segment = "eyJzdWIiOiJhbGljZSIsImlhdCI6MTAwfQ" then
      some (.obj [("sub", .str "alice"), ("iat", .num (.posInt 100))])
    else if segment = "eyJzdWIiOiJhbGljZSIsImlhdCI6MjAwfQ" then
      some (.obj [("sub", .str "alice"), ("iat", .num (.posInt 200))])
    else if segment = "eyJzdWIiOiJhbGljZSIsImlhdCI6MzAwfQ" then
      some (.obj [("sub", .str "alice"), ("iat", .num (.posInt 300))])
    else none
  sha256 _ :=
    [43, 216, 6, 201, 127, 14, 0, 175, 26, 31, 195, 50, 143, 167, 99, 169, 38, 151, 35, 200,
      219, 143, 172, 79, 147, 175, 113, 219, 24, 109, 110, 144]

def first : String := "eyJhbGciOiJSUzI1NiJ9.eyJzdWIiOiJhbGljZSIsImlhdCI6MTAwfQ.c2ln"
def second : String := "eyJhbGciOiJSUzI1NiJ9.eyJzdWIiOiJhbGljZSIsImlhdCI6MjAwfQ.c2ln"
def third : String := "eyJhbGciOiJSUzI1NiJ9.eyJzdWIiOiJhbGljZSIsImlhdCI6MzAwfQ.c2ln"

def surroundings : Surroundings := ⟨⟨0, 1000000000000⟩, fun _ => some none, fun _ => none⟩

/-- The grant has been refreshed to the second token. -/
def store : TokenStore :=
  (TokenStore.new true none).storeToken surroundings.clock (credentialSessionKey codec second)
    ⟨second, some "refresh", none⟩

theorem ofGrant : OfGrant codec (credentialSessionKey codec second) [second, first, third] where
  key := by decide +kernel
  issued := by decide +kernel
  distinct := by decide +kernel

end ThreeBearers

open ThreeBearers in
/-- The first token arrives last. -/
theorem delivery_order_irrelevant_when_delayed :
    ∃ newest, Holds (deliverAll codec store [⟨surroundings, third⟩, ⟨surroundings, first⟩])
      (credentialSessionKey codec second) newest "refresh" := by
  obtain ⟨newest, -, hall⟩ := delivery_order_irrelevant codec store surroundings.clock
    (credentialSessionKey codec second) ⟨second, some "refresh", none⟩ "refresh" [first, third]
    (by decide +kernel) rfl ofGrant
  refine ⟨newest, hall _ (List.Perm.swap _ _ _) ?_⟩
  intro d hd
  have haccepted : ∀ token ∈ [third, first],
      Delivery.Accepted codec ⟨surroundings, token⟩ := by
    intro token htoken
    refine ⟨⟨none, rfl, rfl⟩, ?_⟩
    have hlive : ∀ token ∈ [third, first],
        jwtIsExpired codec surroundings.clock token ≠ some true := by decide +kernel
    exact hlive token htoken
  rcases List.mem_cons.mp hd with rfl | hd
  · exact haccepted third (by simp)
  · rw [List.mem_singleton.mp hd]
    exact haccepted first (by simp)

end McpFramework
