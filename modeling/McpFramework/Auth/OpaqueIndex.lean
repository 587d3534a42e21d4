import McpFramework.Core.Time
import Mathlib.Logic.Function.Basic

/-!
# Auth — OpaqueIndex

The in-memory index of the opaque token mode (`auth/store.rs`): from an opaque
access or refresh token to its session, and from a session to its tokens. The
two directions agree (`Consistent`), through every operation.
-/

namespace McpFramework

/-- The two kinds of opaque tokens. Each has an inverse map of its own. -/
inductive OpaqueKind where
  | access
  | refresh
deriving DecidableEq

structure PersistedOpaqueMapping where
  opaqueAccess : String
  opaqueRefresh : String
  accessExpiresAtUnixMs : Nat
  refreshExpiresAtUnixMs : Nat
  /-- Ghost: the call that stored the mapping. -/
  issue : Nat
deriving DecidableEq

structure OpaqueBinding where
  sessionId : String
  expiresAt : Nat
  /-- Ghost: the call that stored the mapping the binding is of. -/
  issue : Nat
deriving DecidableEq

namespace PersistedOpaqueMapping

def token (m : PersistedOpaqueMapping) : OpaqueKind → String
  | .access => m.opaqueAccess
  | .refresh => m.opaqueRefresh

def expiresAtUnixMs (m : PersistedOpaqueMapping) : OpaqueKind → Nat
  | .access => m.accessExpiresAtUnixMs
  | .refresh => m.refreshExpiresAtUnixMs

end PersistedOpaqueMapping

/-- `toSession .access` is `access_to_session` and `toSession .refresh` is
`refresh_to_session`. -/
structure OpaqueIndex where
  toSession : OpaqueKind → String → Option OpaqueBinding
  sessionToOpaques : String → Option PersistedOpaqueMapping

namespace OpaqueIndex

def empty : OpaqueIndex := { toSession := fun _ _ => none, sessionToOpaques := fun _ => none }

/-- `access_to_session.insert(..)`, `refresh_to_session.remove(..)` and so on. -/
def setBinding (idx : OpaqueIndex) (kind : OpaqueKind) (token : String)
    (binding : Option OpaqueBinding) : OpaqueIndex :=
  { idx with
    toSession := Function.update idx.toSession kind
      (Function.update (idx.toSession kind) token binding) }

/-- Remove all maps for a session, returning the mapping that was removed. -/
def removeSession (idx : OpaqueIndex) (sessionId : String) :
    OpaqueIndex × Option PersistedOpaqueMapping :=
  match idx.sessionToOpaques sessionId with
  | some mapping =>
    let idx :=
      { idx with sessionToOpaques := Function.update idx.sessionToOpaques sessionId none }
    ((idx.setBinding .access mapping.opaqueAccess none).setBinding .refresh
      mapping.opaqueRefresh none, some mapping)
  | none => (idx, none)

def insert (idx : OpaqueIndex) (clock : Clock) (sessionId : String)
    (mapping : PersistedOpaqueMapping) : OpaqueIndex :=
  let accessRemaining := remainingUntilUnixMillis clock mapping.accessExpiresAtUnixMs
  let refreshRemaining := remainingUntilUnixMillis clock mapping.refreshExpiresAtUnixMs
  if refreshRemaining = 0 then idx
  else
    let idx := (idx.removeSession sessionId).1
    let idx :=
      if accessRemaining = 0 then idx
      else
        idx.setBinding .access mapping.opaqueAccess
          (some ⟨sessionId, clock.now + accessRemaining, mapping.issue⟩)
    let idx := idx.setBinding .refresh mapping.opaqueRefresh
      (some ⟨sessionId, clock.now + refreshRemaining, mapping.issue⟩)
    { idx with sessionToOpaques := Function.update idx.sessionToOpaques sessionId (some mapping) }

/-! ## Consistency -/

/-- A token's binding is that of its session's mapping. -/
def Consistent (idx : OpaqueIndex) : Prop :=
  ∀ kind token b, idx.toSession kind token = some b →
    ∃ m, idx.sessionToOpaques b.sessionId = some m ∧ m.token kind = token ∧ m.issue = b.issue

variable {idx : OpaqueIndex} {kind kind' : OpaqueKind} {token token' sessionId sessionId' : String}
  {b : OpaqueBinding} {m : PersistedOpaqueMapping} {clock : Clock}

theorem consistent_empty : empty.Consistent := fun _ _ _ h => by cases h

theorem setBinding_self (idx : OpaqueIndex) (kind : OpaqueKind) (token : String)
    (binding : Option OpaqueBinding) :
    (idx.setBinding kind token binding).toSession kind token = binding := by
  simp [setBinding]

theorem setBinding_other {binding : Option OpaqueBinding} (h : kind' ≠ kind ∨ token' ≠ token) :
    (idx.setBinding kind token binding).toSession kind' token' = idx.toSession kind' token' := by
  by_cases hk : kind' = kind
  · subst hk
    have ht : token' ≠ token := h.resolve_left (fun h => h rfl)
    simp [setBinding, ht]
  · simp [setBinding, Function.update_of_ne hk]

/-- Removing a binding leaves the others as they are. -/
theorem of_setBinding_none (h : (idx.setBinding kind token none).toSession kind' token' = some b) :
    (kind' ≠ kind ∨ token' ≠ token) ∧ idx.toSession kind' token' = some b := by
  by_cases hne : kind' ≠ kind ∨ token' ≠ token
  · rw [setBinding_other hne] at h
    exact ⟨hne, h⟩
  · have hk : kind' = kind := by
      by_contra hk
      exact hne (.inl hk)
    have ht : token' = token := by
      by_contra ht
      exact hne (.inr ht)
    rw [hk, ht, setBinding_self] at h
    cases h

theorem Consistent.expire (h : idx.Consistent) (kind : OpaqueKind) (token : String) :
    (idx.setBinding kind token none).Consistent :=
  fun kind' token' b hb => h kind' token' b (of_setBinding_none hb).2

/-! ## Removal -/

theorem removeSession_sessions (idx : OpaqueIndex) (sessionId : String) :
    (idx.removeSession sessionId).1.sessionToOpaques =
      Function.update idx.sessionToOpaques sessionId none := by
  unfold removeSession
  split
  · rfl
  · rename_i hnone
    rw [← hnone, Function.update_eq_self]

/-- A removed session has no binding left, and no other binding changes. -/
theorem of_removeSession (hi : idx.Consistent)
    (h : (idx.removeSession sessionId).1.toSession kind token = some b) :
    b.sessionId ≠ sessionId ∧ idx.toSession kind token = some b := by
  unfold removeSession at h
  cases hs : idx.sessionToOpaques sessionId with
  | none =>
    simp only [hs] at h
    refine ⟨?_, h⟩
    rintro rfl
    obtain ⟨m, hm, -⟩ := hi kind token b h
    rw [hs] at hm
    cases hm
  | some m =>
    simp only [hs] at h
    obtain ⟨hne, h⟩ := of_setBinding_none h
    obtain ⟨hne', h⟩ := of_setBinding_none h
    refine ⟨?_, h⟩
    rintro rfl
    obtain ⟨m', hm', htoken, -⟩ := hi kind token b h
    rw [hs] at hm'
    cases hm'
    cases kind with
    | access => exact (hne'.resolve_left (fun h => h rfl)) htoken.symm
    | refresh => exact (hne.resolve_left (fun h => h rfl)) htoken.symm

/-- A removal adds no binding. -/
theorem toSession_of_removeSession
    (h : (idx.removeSession sessionId).1.toSession kind token = some b) :
    idx.toSession kind token = some b := by
  unfold removeSession at h
  split at h
  · exact (of_setBinding_none (of_setBinding_none h).2).2
  · exact h

theorem Consistent.removeSession (hi : idx.Consistent) (sessionId : String) :
    (idx.removeSession sessionId).1.Consistent := by
  intro kind token b hb
  obtain ⟨hne, hb⟩ := of_removeSession hi hb
  rw [removeSession_sessions, Function.update_of_ne hne]
  exact hi kind token b hb

/-! ## Insertion -/

theorem insert_of_expired
    (h : remainingUntilUnixMillis clock m.refreshExpiresAtUnixMs = 0) :
    idx.insert clock sessionId m = idx := if_pos h

/-- The bindings an insertion puts; the access token's only while it has time
left. -/
theorem insert_of_live (idx : OpaqueIndex) (sessionId : String)
    (h : remainingUntilUnixMillis clock m.refreshExpiresAtUnixMs ≠ 0) :
    ∃ access, (access = (idx.removeSession sessionId).1 ∨
        ∃ expiresAt, access = (idx.removeSession sessionId).1.setBinding .access m.opaqueAccess
          (some ⟨sessionId, expiresAt, m.issue⟩)) ∧
      ∃ expiresAt, idx.insert clock sessionId m =
        { access.setBinding .refresh m.opaqueRefresh (some ⟨sessionId, expiresAt, m.issue⟩) with
          sessionToOpaques :=
            Function.update (idx.removeSession sessionId).1.sessionToOpaques sessionId
              (some m) } := by
  by_cases ha : remainingUntilUnixMillis clock m.accessExpiresAtUnixMs = 0
  · refine ⟨_, .inl rfl,
      clock.now + remainingUntilUnixMillis clock m.refreshExpiresAtUnixMs,
      (if_neg h).trans ?_⟩
    rw [if_pos ha]
    rfl
  · refine ⟨_, .inr ⟨clock.now + remainingUntilUnixMillis clock m.accessExpiresAtUnixMs, rfl⟩,
      clock.now + remainingUntilUnixMillis clock m.refreshExpiresAtUnixMs, (if_neg h).trans ?_⟩
    rw [if_neg ha]
    rfl

/-- An insertion does nothing or puts the mapping. -/
theorem insert_sessions (idx : OpaqueIndex) (clock : Clock) (sessionId : String)
    (m : PersistedOpaqueMapping) :
    (idx.insert clock sessionId m).sessionToOpaques = idx.sessionToOpaques ∨
      (idx.insert clock sessionId m).sessionToOpaques =
        Function.update idx.sessionToOpaques sessionId (some m) := by
  by_cases h : remainingUntilUnixMillis clock m.refreshExpiresAtUnixMs = 0
  · rw [insert_of_expired h]
    exact .inl rfl
  · obtain ⟨access, -, expiresAt, heq⟩ := insert_of_live idx sessionId h
    right
    rw [heq]
    show Function.update (idx.removeSession sessionId).1.sessionToOpaques sessionId (some m) = _
    rw [removeSession_sessions, Function.update_idem]

/-- The bindings an insertion adds are those of the mapping. -/
theorem toSession_of_insert (h : (idx.insert clock sessionId m).toSession kind token = some b) :
    (b.sessionId = sessionId ∧ m.token kind = token) ∨ idx.toSession kind token = some b := by
  by_cases hexp : remainingUntilUnixMillis clock m.refreshExpiresAtUnixMs = 0
  · rw [insert_of_expired hexp] at h
    exact .inr h
  · obtain ⟨access, haccess, expiresAt, heq⟩ := insert_of_live idx sessionId hexp
    rw [heq] at h
    have h : (access.setBinding .refresh m.opaqueRefresh
      (some ⟨sessionId, expiresAt, m.issue⟩)).toSession kind token = some b := h
    by_cases hr : kind = .refresh ∧ token = m.opaqueRefresh
    · obtain ⟨rfl, rfl⟩ := hr
      rw [setBinding_self] at h
      cases h
      exact .inl ⟨rfl, rfl⟩
    · rw [setBinding_other (not_and_or.mp hr)] at h
      rcases haccess with rfl | ⟨accessExpiresAt, rfl⟩
      · exact .inr (toSession_of_removeSession h)
      · by_cases ha : kind = .access ∧ token = m.opaqueAccess
        · obtain ⟨rfl, rfl⟩ := ha
          rw [setBinding_self] at h
          cases h
          exact .inl ⟨rfl, rfl⟩
        · rw [setBinding_other (not_and_or.mp ha)] at h
          exact .inr (toSession_of_removeSession h)

theorem Consistent.insert (hi : idx.Consistent) (clock : Clock) (sessionId : String)
    (m : PersistedOpaqueMapping) : (idx.insert clock sessionId m).Consistent := by
  by_cases h : remainingUntilUnixMillis clock m.refreshExpiresAtUnixMs = 0
  · rw [insert_of_expired h]
    exact hi
  · obtain ⟨access, haccess, expiresAt, heq⟩ := insert_of_live idx sessionId h
    rw [heq]
    intro kind token b hb
    -- A binding is one of the two that were put, or was there before.
    have hnew : ∀ expiresAt, b = ⟨sessionId, expiresAt, m.issue⟩ → m.token kind = token →
        ∃ m', Function.update (idx.removeSession sessionId).1.sessionToOpaques sessionId (some m)
          b.sessionId = some m' ∧ m'.token kind = token ∧ m'.issue = b.issue := by
      rintro expiresAt rfl htoken
      exact ⟨m, Function.update_self .., htoken, rfl⟩
    have hold : (idx.removeSession sessionId).1.toSession kind token = some b →
        ∃ m', Function.update (idx.removeSession sessionId).1.sessionToOpaques sessionId (some m)
          b.sessionId = some m' ∧ m'.token kind = token ∧ m'.issue = b.issue := by
      intro h
      obtain ⟨hne, -⟩ := of_removeSession hi h
      rw [Function.update_of_ne hne]
      exact hi.removeSession sessionId kind token b h
    have hb : (access.setBinding .refresh m.opaqueRefresh
      (some ⟨sessionId, expiresAt, m.issue⟩)).toSession kind token = some b := hb
    by_cases hr : kind = .refresh ∧ token = m.opaqueRefresh
    · obtain ⟨rfl, rfl⟩ := hr
      rw [setBinding_self] at hb
      exact hnew expiresAt (Option.some.inj hb).symm rfl
    · rw [setBinding_other (not_and_or.mp hr)] at hb
      rcases haccess with rfl | ⟨accessExpiresAt, rfl⟩
      · exact hold hb
      · by_cases ha : kind = .access ∧ token = m.opaqueAccess
        · obtain ⟨rfl, rfl⟩ := ha
          rw [setBinding_self] at hb
          exact hnew accessExpiresAt (Option.some.inj hb).symm rfl
        · rw [setBinding_other (not_and_or.mp ha)] at hb
          exact hold hb

/-- The bindings after a number of insertions are those of the mappings, or were
there before. -/
theorem toSession_of_inserted {entries : List (String × PersistedOpaqueMapping)}
    (h : (entries.foldl (fun idx e => idx.insert clock e.1 e.2) idx).toSession kind token =
      some b) :
    (∃ e ∈ entries, b.sessionId = e.1 ∧ e.2.token kind = token) ∨
      idx.toSession kind token = some b := by
  induction entries generalizing idx with
  | nil => exact .inr h
  | cons e entries ih =>
    rw [List.foldl_cons] at h
    rcases ih h with ⟨e', he', hb⟩ | hold
    · exact .inl ⟨e', List.mem_cons_of_mem _ he', hb⟩
    · rcases toSession_of_insert hold with hb | hold
      · exact .inl ⟨e, List.mem_cons_self .., hb⟩
      · exact .inr hold

theorem Consistent.inserted (hi : idx.Consistent) (clock : Clock)
    (entries : List (String × PersistedOpaqueMapping)) :
    (entries.foldl (fun idx e => idx.insert clock e.1 e.2) idx).Consistent := by
  induction entries generalizing idx with
  | nil => exact hi
  | cons e entries ih =>
    rw [List.foldl_cons]
    exact ih (hi.insert clock e.1 e.2)

/-! ## Thinning -/

/-- No binding is new. -/
structure Thins (idx idx' : OpaqueIndex) : Prop where
  toSession : ∀ kind token b, idx'.toSession kind token = some b →
    idx.toSession kind token = some b
  consistent : idx.Consistent → idx'.Consistent

theorem Thins.refl (idx : OpaqueIndex) : idx.Thins idx := ⟨fun _ _ _ h => h, id⟩

theorem Thins.trans {idx₁ idx₂ : OpaqueIndex} (h₁ : idx.Thins idx₁) (h₂ : idx₁.Thins idx₂) :
    idx.Thins idx₂ :=
  ⟨fun kind token b hb => h₁.toSession kind token b (h₂.toSession kind token b hb),
    fun hi => h₂.consistent (h₁.consistent hi)⟩

theorem thins_removeSession (idx : OpaqueIndex) (sessionId : String) :
    idx.Thins (idx.removeSession sessionId).1 :=
  ⟨fun _ _ _ hb => toSession_of_removeSession hb, fun hi => hi.removeSession sessionId⟩

theorem thins_expire (idx : OpaqueIndex) (kind : OpaqueKind) (token : String) :
    idx.Thins (idx.setBinding kind token none) :=
  ⟨fun _ _ _ hb => (of_setBinding_none hb).2, fun hi => hi.expire kind token⟩

end OpaqueIndex
end McpFramework
