import McpFramework.Auth.Credential
import McpFramework.Lib.TwoStamps

/-!
# Auth — BearerComparison

`jwt_is_strictly_newer` as an order of bearers (`auth/middleware.rs`): by `iat`
where both have it, and by `exp` otherwise, "since two tokens of one grant share a
lifetime".

Between tokens that do share a lifetime the two claims agree. Between others a
token without `iat` can lie, by `exp`, between two that `iat` orders the other way,
and each of the three is then newer than the next.
-/

namespace McpFramework

open Lib

section Comparison

variable (c : Codec)

/-- The bearer an entry with refresh material holds after another one was
presented. -/
def keepStrictlyNewer (held presented : String) : String :=
  if (jwtIsStrictlyNewer c presented held).getD false then presented else held

/-- Keeping the newer of two bearers of a set never leads back to one that was
given up. -/
def NeverRolledBack (S : Set String) : Prop :=
  ∀ held ∈ S, ∀ before after : List String, (∀ token ∈ before ++ after, token ∈ S) →
    before.foldl (keepStrictlyNewer c) held ≠ held →
      (before ++ after).foldl (keepStrictlyNewer c) held ≠ held

/-- By `exp` a token without `iat` lies between two tokens with both claims that
`iat` orders the other way. -/
def ClaimsCross (S : Set String) : Prop :=
  TwoStamps.Crossing (fun t => jwtTimestamp c t "iat") (fun t => jwtTimestamp c t "exp") S

/-- The tokens of a set that have both claims share one lifetime. -/
def ShareLifetime (S : Set String) : Prop :=
  ∃ lifetime, ∀ t ∈ S, ∀ iat exp, jwtTimestamp c t "iat" = some iat →
    jwtTimestamp c t "exp" = some exp → exp = iat + lifetime

variable {c}

theorem jwtIsStrictlyNewer_eq (candidate incumbent : String) :
    jwtIsStrictlyNewer c candidate incumbent =
      TwoStamps.newer (fun t => jwtTimestamp c t "iat") (fun t => jwtTimestamp c t "exp")
        candidate incumbent := by
  unfold jwtIsStrictlyNewer TwoStamps.newer
  dsimp only
  cases jwtTimestamp c candidate "iat" <;> cases jwtTimestamp c incumbent "iat" <;>
    cases jwtTimestamp c candidate "exp" <;> cases jwtTimestamp c incumbent "exp" <;> rfl

theorem keepStrictlyNewer_eq : keepStrictlyNewer c =
    TwoStamps.keep (fun t => jwtTimestamp c t "iat") (fun t => jwtTimestamp c t "exp") := by
  funext held presented
  rw [keepStrictlyNewer, jwtIsStrictlyNewer_eq]
  rfl

theorem neverRolledBack_iff (S : Set String) : NeverRolledBack c S ↔ ¬ ClaimsCross c S := by
  rw [NeverRolledBack, keepStrictlyNewer_eq]
  exact TwoStamps.neverBack_iff S

theorem not_claimsCross_of_shareLifetime {S : Set String} (h : ShareLifetime c S) :
    ¬ ClaimsCross c S := by
  obtain ⟨lifetime, h⟩ := h
  refine (TwoStamps.neverBack_iff S).mp (TwoStamps.neverBack_of_agree ?_)
  intro a ha b hb i p j r hi hp hj hr hij
  have hap := h a ha i p hi hp
  have hbr := h b hb j r hj hr
  omega

end Comparison

/-- **Newer bearers.** No token is newer than itself, and no two are newer than
each other. Of three tokens in a row the first is newer than the last unless
exactly one of them lacks `iat`. Keeping the newer of two bearers of a set leads
back to one that was given up exactly where the claims cross, so never where
tokens with both claims share a lifetime. -/
theorem newer_bearers (c : Codec) :
    (∀ a, jwtIsStrictlyNewer c a a ≠ some true) ∧
    (∀ a b, jwtIsStrictlyNewer c a b = some true → jwtIsStrictlyNewer c b a = some false) ∧
    (∀ a b d, ([a, b, d].countP fun t => (jwtTimestamp c t "iat").isNone) ≠ 1 →
      jwtIsStrictlyNewer c a b = some true → jwtIsStrictlyNewer c b d = some true →
        jwtIsStrictlyNewer c a d = some true) ∧
    (∀ S, NeverRolledBack c S ↔ ¬ ClaimsCross c S) ∧
    ∀ S, ShareLifetime c S → NeverRolledBack c S := by
  refine ⟨fun a => ?_, fun a b h => ?_, fun a b d hone hab hbd => ?_, neverRolledBack_iff,
    fun S h => (neverRolledBack_iff S).mpr (not_claimsCross_of_shareLifetime h)⟩
  · rw [jwtIsStrictlyNewer_eq]
    exact TwoStamps.newer_irrefl a
  · rw [jwtIsStrictlyNewer_eq] at h ⊢
    exact TwoStamps.newer_asymm h
  · rw [jwtIsStrictlyNewer_eq] at hab hbd ⊢
    exact TwoStamps.newer_trans hone hab hbd

namespace BearerComparison

/-- The decoder on four segments: a header, and payloads with `iat` 1 and `exp` 3,
with `exp` 2, and with `iat` 2 and `exp` 1. -/
def codec : Codec where
  decode segment :=
    if segment = "eyJhbGciOiJSUzI1NiJ9" then some (.obj [("alg", .str "RS256")])
    else if segment = "eyJpYXQiOjEsImV4cCI6M30" then
      some (.obj [("iat", .num (.posInt 1)), ("exp", .num (.posInt 3))])
    else if segment = "eyJleHAiOjJ9" then some (.obj [("exp", .num (.posInt 2))])
    else if segment = "eyJpYXQiOjIsImV4cCI6MX0" then
      some (.obj [("iat", .num (.posInt 2)), ("exp", .num (.posInt 1))])
    else none
  sha256 _ := []

/-- The first is newer than the second, the second than the third, and the third
than the first. -/
theorem three_tokens_newer_in_a_circle :
    ¬ ∀ (c : Codec) (a b d : String), jwtIsStrictlyNewer c a b = some true →
      jwtIsStrictlyNewer c b d = some true → jwtIsStrictlyNewer c a d = some true := by
  intro h
  have hcircle := h codec "eyJhbGciOiJSUzI1NiJ9.eyJpYXQiOjEsImV4cCI6M30.sig"
    "eyJhbGciOiJSUzI1NiJ9.eyJleHAiOjJ9.sig" "eyJhbGciOiJSUzI1NiJ9.eyJpYXQiOjIsImV4cCI6MX0.sig"
    (by decide +kernel) (by decide +kernel)
  revert hcircle
  decide +kernel

end BearerComparison
end McpFramework
