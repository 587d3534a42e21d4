import McpFramework.Auth.PassthroughHistory

/-!
# Auth — GrantMaterial

Whether an observed bearer can take refresh material away from the session it
names.

Where the session's own entry knows the bearer, or neither key does, the entry
stays, advances with its refresh token, or is refreshed with it (`Kept`). Where
the entry under the grant key knows the bearer, that entry's material replaces
the session's, and with it the refresh token (`Downgrades`).
-/

namespace McpFramework

open Lib

variable (c : Codec)

/-- The entry `e` with refresh token `refreshToken` has kept its material over a
request that carried `token`: it is the same, or advanced to a newer bearer with
the refresh token carried over, or refreshed upstream. No other refresh token
was submitted in its stead. -/
structure Kept (env : Surroundings) (sessionId token : String) (e : StoredToken)
    (refreshToken : String) (r : Response) : Prop where
  own : ∀ x ∈ r.submitted, x = refreshToken
  entry : ∃ e', r.store.lookup env.clock sessionId = some e' ∧ e'.refreshToken.isSome ∧
    ((e'.accessToken = e.accessToken ∧ e'.refreshToken = some refreshToken) ∨
      (jwtIsStrictlyNewer c token e.accessToken = some true ∧ e'.accessToken = token ∧
        e'.refreshToken = some refreshToken) ∨
      (refreshToken ∈ r.submitted ∧
        (env.endpoint refreshToken).bind (TokenStore.refreshed env.clock refreshToken) = some e'))

variable {c} {env : Surroundings} {st : TokenStore} {sessionId token refreshToken : String}
  {e t : StoredToken}

/-! ## A refresh of an entry that holds the material -/

/-- The persisted token of a coherent store carries the entry's tokens. -/
theorem Coherent.adoptable (h : TokenStore.Coherent st) {clock : Clock}
    (ht : st.lookup clock sessionId = some t) {fresh : StoredToken}
    (hf : st.adoptable clock sessionId = some fresh) :
    fresh.accessToken = t.accessToken ∧ fresh.refreshToken = t.refreshToken := by
  have hload := (Option.filter_eq_some_iff.mp hf).1
  cases hmem : st.tokens.get? sessionId with
  | some token =>
    rw [TokenStore.lookup, hmem] at ht
    cases ht
    obtain ⟨r, hr, rfl⟩ := Option.map_eq_some_iff.mp hload
    exact h sessionId t r hmem hr
  | none =>
    rw [TokenStore.lookup, hmem] at ht
    rw [hload] at ht
    cases ht
    exact ⟨rfl, rfl⟩

/-- `get_token` on an entry with the refresh token submits that one only, and
leaves the entry's tokens or the answer to it. -/
theorem gotOf_own (h : TokenStore.Coherent st) (ht : st.lookup env.clock sessionId = some t)
    (hrt : t.refreshToken = some refreshToken) :
    let g := st.gotOf env.clock env.endpoint sessionId t
    (∀ x ∈ g.2.2, x = refreshToken) ∧ ∃ e', g.1 = some e' ∧ e'.refreshToken.isSome ∧
      ((e'.accessToken = t.accessToken ∧ e'.refreshToken = some refreshToken) ∨
        (refreshToken ∈ g.2.2 ∧
          (env.endpoint refreshToken).bind (TokenStore.refreshed env.clock refreshToken) =
            some e')) := by
  rcases TokenStore.gotOf_cases st env.clock env.endpoint sessionId t with
    ⟨t', r, hg, hcase⟩ | ⟨rt, hrt', -, -, -, ⟨new, hans, hg⟩ | ⟨-, hg⟩⟩
  · rw [hg]
    rcases hcase with rfl | ⟨hf, -⟩
    · exact ⟨by simp, t', rfl, by simp [hrt], .inl ⟨rfl, hrt⟩⟩
    · obtain ⟨ha, hr⟩ := Coherent.adoptable h ht hf
      exact ⟨by simp, t', rfl, by simp [hr, hrt], .inl ⟨ha, by rw [hr, hrt]⟩⟩
  · rw [hrt] at hrt'
    cases hrt'
    rw [hg]
    exact ⟨by simp, new, rfl, TokenStore.refreshed_isSome hans, .inr ⟨by simp, hans⟩⟩
  · rw [hrt] at hrt'
    cases hrt'
    rw [hg]
    exact ⟨by simp, t, rfl, by simp [hrt], .inl ⟨rfl, hrt⟩⟩

/-- The entry `t` under the session continues `e`: it has its refresh token, and
is `e`, or a newer bearer. -/
def Continues (c : Codec) (token : String) (e t : StoredToken) (refreshToken : String) : Prop :=
  t.refreshToken = some refreshToken ∧
    (t.accessToken = e.accessToken ∨
      (jwtIsStrictlyNewer c token e.accessToken = some true ∧ t.accessToken = token))

/-- From an entry that continues `e`, the last stage keeps its material. -/
theorem Continues.finish (hc : Continues c token e t refreshToken) (h : TokenStore.Coherent st)
    (ht : st.lookup env.clock sessionId = some t) (expired : Bool) :
    Kept c env sessionId token e refreshToken (finish env st expired sessionId token) := by
  obtain ⟨hrt, hacc⟩ := hc
  have hentry : ∀ e' : StoredToken, e'.accessToken = t.accessToken →
      e'.refreshToken = some refreshToken →
      (e'.accessToken = e.accessToken ∧ e'.refreshToken = some refreshToken) ∨
        (jwtIsStrictlyNewer c token e.accessToken = some true ∧ e'.accessToken = token ∧
          e'.refreshToken = some refreshToken) := by
    intro e' ha hr
    rcases hacc with hsame | ⟨hnew, htok⟩
    · exact .inl ⟨ha.trans hsame, hr⟩
    · exact .inr ⟨hnew, ha.trans htok, hr⟩
  cases expired with
  | false =>
    refine ⟨by simp [McpFramework.finish], t, by simpa [McpFramework.finish] using ht,
      by simp [hrt], ?_⟩
    rcases hentry t rfl hrt with h | h
    · exact .inl h
    · exact .inr (.inl h)
  | true =>
    obtain ⟨hlook, hsub, -⟩ := finish_spec env token ht
    obtain ⟨hown, e', he', hsome, hcase⟩ := gotOf_own h ht hrt
    rw [← hsub] at hown hcase
    refine ⟨hown, e', hlook.trans he', hsome, ?_⟩
    rcases hcase with ⟨ha, hr⟩ | hans
    · rcases hentry e' ha hr with h | h
      · exact .inl h
      · exact .inr (.inl h)
    · exact .inr (.inr hans)

namespace LoginAndOwnToken

/-- The header `{"alg":"RS256"}` and the payloads `{"sub":"alice","iat":200}` and
`{"sub":"alice","iat":100}`, with the digest of `alice`. -/
def codec : Codec where
  decode segment :=
    if segment = "eyJhbGciOiJSUzI1NiJ9" then some (.obj [("alg", .str "RS256")])
    else if segment = "eyJzdWIiOiJhbGljZSIsImlhdCI6MjAwfQ" then
      some (.obj [("sub", .str "alice"), ("iat", .num (.posInt 200))])
    else if segment = "eyJzdWIiOiJhbGljZSIsImlhdCI6MTAwfQ" then
      some (.obj [("sub", .str "alice"), ("iat", .num (.posInt 100))])
    else none
  sha256 _ :=
    [43, 216, 6, 201, 127, 14, 0, 175, 26, 31, 195, 50, 143, 167, 99, 169, 38, 151, 35, 200,
      219, 143, 172, 79, 147, 175, 113, 219, 24, 109, 110, 144]

/-- Issued at 200, by the login, with the refresh token `rt1`. -/
def loginToken : String := "eyJhbGciOiJSUzI1NiJ9.eyJzdWIiOiJhbGljZSIsImlhdCI6MjAwfQ.c2ln"

/-- Issued at 100, the client's own. -/
def ownToken : String := "eyJhbGciOiJSUzI1NiJ9.eyJzdWIiOiJhbGljZSIsImlhdCI6MTAwfQ.c2ln"

/-- A request that names session `S`. -/
def onS (token : String) : Request := Request.ofBearer token (some "S")

def surroundings : Surroundings := ⟨⟨0, 1000000000000⟩, fun _ => some none, fun _ => none⟩

def started : PassthroughHistory.State :=
  ⟨surroundings.clock, TokenStore.new true (some ⟨HashMap.empty, HashMap.empty⟩)⟩

/-- The login of session `S`. -/
def login : PassthroughHistory.Event := .login "S" ⟨loginToken, some "rt1", none⟩

end LoginAndOwnToken

end McpFramework
