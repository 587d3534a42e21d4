import McpFramework.Auth.OpaqueIndex
import McpFramework.Auth.SessionHeader

/-!
# Auth — OpaqueGrants

The opaque tokens of a store and the grants they stand for, each operation run
to its end (`auth/store.rs`). The token endpoint names every grant by a fresh UUID,
and a refresh grant keeps the name (`auth/proxy.rs`): nothing else comes into the
index.
-/

namespace McpFramework

namespace Uuid

end Uuid

/-! ## The store's opaque half -/

/-- Namespaces `opaque`, and `opaque_access` and `opaque_refresh`. -/
structure OpaqueBackend where
  forward : String → Option PersistedOpaqueMapping
  inverse : OpaqueKind → String → Option String

structure OpaqueStore where
  index : OpaqueIndex
  persistence : Option OpaqueBackend

namespace OpaqueBackend

def empty : OpaqueBackend := ⟨fun _ => none, fun _ _ => none⟩

def setInverse (b : OpaqueBackend) (kind : OpaqueKind) (token : String)
    (sessionId : Option String) : OpaqueBackend :=
  { b with
    inverse := Function.update b.inverse kind (Function.update (b.inverse kind) token sessionId) }

def setForward (b : OpaqueBackend) (sessionId : String)
    (mapping : Option PersistedOpaqueMapping) : OpaqueBackend :=
  { b with forward := Function.update b.forward sessionId mapping }

/-- The inverse entries of a mapping go. -/
def dropInverse (b : OpaqueBackend) : Option PersistedOpaqueMapping → OpaqueBackend
  | some m => (b.setInverse .access m.opaqueAccess none).setInverse .refresh m.opaqueRefresh none
  | none => b

end OpaqueBackend

namespace OpaqueStore

def updateBackend (st : OpaqueStore) (f : OpaqueBackend → OpaqueBackend) : OpaqueStore :=
  { st with persistence := st.persistence.map f }

/-- `store_opaque_mapping_with_access_ttl`. -/
def storeOpaqueMapping (st : OpaqueStore) (clock : Clock) (sessionId : String)
    (mapping : PersistedOpaqueMapping) : OpaqueStore :=
  let r := st.index.removeSession sessionId
  let st := { st with index := r.1.insert clock sessionId mapping }
  st.updateBackend fun b =>
    (((b.setForward sessionId (some mapping)).setInverse .access mapping.opaqueAccess
      (some sessionId)).setInverse .refresh mapping.opaqueRefresh (some sessionId)).dropInverse r.2

/-- `remove_opaque_for_session`. -/
def removeOpaqueForSession (st : OpaqueStore) (sessionId : String) : OpaqueStore :=
  let r := st.index.removeSession sessionId
  let st := { st with index := r.1 }
  -- A mapping that is not in memory is read back from the backend.
  st.updateBackend fun b =>
    (b.setForward sessionId none).dropInverse (r.2.or (b.forward sessionId))

/-- What a resolve does with a binding that has expired. -/
def expire (st : OpaqueStore) (kind : OpaqueKind) (token sessionId : String) : OpaqueStore :=
  match kind with
  | .access =>
    { st with index := st.index.setBinding .access token none }.updateBackend
      (·.setInverse .access token none)
  | .refresh => st.removeOpaqueForSession sessionId

/-- `resolve_opaque_access` and `resolve_opaque_refresh`: memory first, then the
inverse entry, which must agree with the mapping of its session. -/
def resolve (st : OpaqueStore) (clock : Clock) (kind : OpaqueKind) (token : String) :
    OpaqueStore × Option String :=
  match st.index.toSession kind token with
  | some binding =>
    if binding.expiresAt > clock.now then (st, some binding.sessionId)
    else (st.expire kind token binding.sessionId, none)
  | none =>
    match st.persistence.bind (·.inverse kind token) with
    | none => (st, none)
    | some sessionId =>
      match st.persistence.bind (·.forward sessionId) with
      | none => (st, none)
      | some mapping =>
        if mapping.token kind ≠ token ∨
            remainingUntilUnixMillis clock (mapping.expiresAtUnixMs kind) = 0 then
          (st.updateBackend (·.setInverse kind token none), none)
        else ({ st with index := st.index.insert clock sessionId mapping }, some sessionId)

end OpaqueStore

/-! ## Grants -/

/-- The name of a grant. -/
def IsUuid (s : String) : Prop := ∃ u : Uuid, s = u.toText

def OpaqueIndex.Minted (idx : OpaqueIndex) : Prop :=
  ∀ kind token b, idx.toSession kind token = some b → IsUuid b.sessionId

def OpaqueBackend.Minted (b : OpaqueBackend) : Prop :=
  ∀ kind token sessionId, b.inverse kind token = some sessionId → IsUuid sessionId

/-- Every opaque token stands for a grant that is named by a UUID. -/
structure OpaqueStore.Minted (st : OpaqueStore) : Prop where
  index : st.index.Minted
  backend : ∀ b, st.persistence = some b → b.Minted

section Index

variable {idx : OpaqueIndex} {sessionId : String}

theorem OpaqueIndex.Minted.expire (h : idx.Minted) (kind : OpaqueKind) (token : String) :
    (idx.setBinding kind token none).Minted :=
  fun kind' token' b hb => h kind' token' b (of_setBinding_none hb).2

theorem OpaqueIndex.Minted.removeSession (h : idx.Minted) (sessionId : String) :
    (idx.removeSession sessionId).1.Minted :=
  fun kind token b hb => h kind token b (toSession_of_removeSession hb)

theorem OpaqueIndex.Minted.insert (h : idx.Minted) (clock : Clock) (hs : IsUuid sessionId)
    (m : PersistedOpaqueMapping) : (idx.insert clock sessionId m).Minted := by
  intro kind token b hb
  rcases toSession_of_insert hb with ⟨rfl, -⟩ | hold
  · exact hs
  · exact h kind token b hold

end Index

namespace OpaqueBackend

variable {b : OpaqueBackend} {kind : OpaqueKind} {token : String}

theorem Minted.setInverse (h : b.Minted) {sessionId : Option String}
    (hs : ∀ s, sessionId = some s → IsUuid s) : (b.setInverse kind token sessionId).Minted := by
  intro kind' token' s hb
  by_cases hk : kind' = kind
  · subst hk
    by_cases ht : token' = token
    · subst ht
      exact hs s (by simpa [OpaqueBackend.setInverse] using hb)
    · exact h kind' token' s (by simpa [OpaqueBackend.setInverse, ht] using hb)
  · exact h kind' token' s (by simpa [OpaqueBackend.setInverse, hk] using hb)

theorem Minted.deleteInverse (h : b.Minted) (kind : OpaqueKind) (token : String) :
    (b.setInverse kind token none).Minted :=
  h.setInverse fun _ hs => absurd hs (Option.some_ne_none _).symm

theorem Minted.setForward (h : b.Minted) (sessionId : String)
    (mapping : Option PersistedOpaqueMapping) : (b.setForward sessionId mapping).Minted := h

theorem Minted.dropInverse (h : b.Minted) (mapping : Option PersistedOpaqueMapping) :
    (b.dropInverse mapping).Minted := by
  cases mapping with
  | none => exact h
  | some m => exact (h.deleteInverse .access _).deleteInverse .refresh _

end OpaqueBackend

namespace OpaqueStore

variable {st : OpaqueStore} {sessionId : String}

theorem Minted.updateBackend {f : OpaqueBackend → OpaqueBackend} (h : st.Minted)
    (hf : ∀ b : OpaqueBackend, b.Minted → (f b).Minted) : (st.updateBackend f).Minted where
  index := h.index
  backend b hb := by
    obtain ⟨b₀, hb₀, rfl⟩ := Option.map_eq_some_iff.mp hb
    exact hf b₀ (h.backend b₀ hb₀)

theorem Minted.setIndex (h : st.Minted) {idx : OpaqueIndex} (hi : idx.Minted) :
    ({ st with index := idx } : OpaqueStore).Minted where
  index := hi
  backend := h.backend

theorem Minted.storeOpaqueMapping (h : st.Minted) (clock : Clock) (hs : IsUuid sessionId)
    (mapping : PersistedOpaqueMapping) :
    (st.storeOpaqueMapping clock sessionId mapping).Minted := by
  have hself : ∀ s, some sessionId = some s → IsUuid s := fun s hsame => Option.some.inj hsame ▸ hs
  apply (h.setIndex ((h.index.removeSession sessionId).insert clock hs mapping)).updateBackend
  intro b hb
  exact (((hb.setForward _ _).setInverse hself).setInverse hself).dropInverse _

theorem Minted.removeOpaqueForSession (h : st.Minted) (sessionId : String) :
    (st.removeOpaqueForSession sessionId).Minted := by
  apply (h.setIndex (h.index.removeSession sessionId)).updateBackend
  intro b hb
  exact (hb.setForward _ _).dropInverse _

theorem Minted.expire (h : st.Minted) (kind : OpaqueKind) (token sessionId : String) :
    (st.expire kind token sessionId).Minted := by
  cases kind with
  | access =>
    exact (h.setIndex (h.index.expire .access token)).updateBackend
      fun b hb => hb.deleteInverse .access token
  | refresh => exact h.removeOpaqueForSession sessionId

/-- A resolve keeps what is minted, and what it answers is. -/
theorem Minted.resolve (h : st.Minted) (clock : Clock) (kind : OpaqueKind) (token : String) :
    (st.resolve clock kind token).1.Minted ∧
      ∀ s, (st.resolve clock kind token).2 = some s → IsUuid s := by
  have nothing : ∀ s : String, (none : Option String) = some s → IsUuid s :=
    fun _ hs => absurd hs (Option.some_ne_none _).symm
  unfold OpaqueStore.resolve
  cases hb : st.index.toSession kind token with
  | some binding =>
    dsimp only
    split
    · exact ⟨h, fun s hs => Option.some.inj hs ▸ h.index kind token binding hb⟩
    · exact ⟨h.expire kind token _, nothing⟩
  | none =>
    cases hinv : st.persistence.bind (·.inverse kind token) with
    | none => exact ⟨h, nothing⟩
    | some sessionId =>
      obtain ⟨b, hpers, hinverse⟩ := Option.bind_eq_some_iff.mp hinv
      have hs : IsUuid sessionId := h.backend b hpers kind token sessionId hinverse
      dsimp only
      cases st.persistence.bind (·.forward sessionId) with
      | none => exact ⟨h, nothing⟩
      | some mapping =>
        dsimp only
        split
        · exact ⟨h.updateBackend fun b hb => hb.deleteInverse kind token, nothing⟩
        · exact ⟨h.setIndex (h.index.insert clock hs mapping),
            fun s hsame => Option.some.inj hsame ▸ hs⟩

end OpaqueStore

/-- The opaque half as the framework leaves it. -/
structure OpaqueGrants extends OpaqueStore where
  minted : toOpaqueStore.Minted

namespace OpaqueGrants

def empty (persistence : Bool) : OpaqueGrants where
  index := OpaqueIndex.empty
  persistence := if persistence then some OpaqueBackend.empty else none
  minted :=
    { index := fun _ _ _ h => absurd h (Option.some_ne_none _).symm
      backend := by
        intro b hb kind token sessionId h
        split at hb
        · cases hb
          cases h
        · cases hb }

/-- The token endpoint issues a pair of tokens for a grant. -/
def issue (g : OpaqueGrants) (clock : Clock) (grant : Uuid) (mapping : PersistedOpaqueMapping) :
    OpaqueGrants where
  toOpaqueStore := g.storeOpaqueMapping clock grant.toText mapping
  minted := g.minted.storeOpaqueMapping clock ⟨grant, rfl⟩ mapping

/-- A refresh grant: a new pair replaces the one whose refresh token it presents. -/
def reissue (g : OpaqueGrants) (clock : Clock) (refreshToken : String)
    (mapping : PersistedOpaqueMapping) : OpaqueGrants :=
  have hr := g.minted.resolve clock .refresh refreshToken
  match h : (g.resolve clock .refresh refreshToken).2 with
  | none => ⟨(g.resolve clock .refresh refreshToken).1, hr.1⟩
  | some sessionId =>
    ⟨(g.resolve clock .refresh refreshToken).1.storeOpaqueMapping clock sessionId mapping,
      hr.1.storeOpaqueMapping clock (hr.2 sessionId h) mapping⟩

def removeForSession (g : OpaqueGrants) (sessionId : String) : OpaqueGrants where
  toOpaqueStore := g.removeOpaqueForSession sessionId
  minted := g.minted.removeOpaqueForSession sessionId

def resolveAccess (g : OpaqueGrants) (clock : Clock) (token : String) :
    OpaqueGrants × Option String :=
  (⟨(g.resolve clock .access token).1, (g.minted.resolve clock .access token).1⟩,
    (g.resolve clock .access token).2)

end OpaqueGrants
end McpFramework
