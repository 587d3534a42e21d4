import McpFramework.Auth.OpaqueIndex
import McpFramework.Lib.Transition

/-!
# Auth — OpaqueInverse

The three maps of the opaque index over a whole run of its mutation sites:
`store_opaque_mapping_with_access_ttl`, `hydrate_opaque` (and the boot, which
inserts what is persisted), `expire_opaque_access`, `remove_opaque_for_session`
and `purge_expired`. Each runs under the index's write lock, so a run is a
sequence of them.

A mapping is known to an instance because one of its own calls stored it, or
because it reads the record another instance persisted. `issued` is the ghost
list of both. Tokens are random, so a new mapping shares none with an old one.
-/

namespace McpFramework.OpaqueIndex

open Lib

/-! ## The mutation sites -/

/-- An index and the mappings that were ever issued, here or elsewhere. -/
structure Indexed where
  index : OpaqueIndex
  issued : List (String × PersistedOpaqueMapping)

inductive Site where
  /-- `store_opaque_mapping_with_access_ttl`. -/
  | rotate (clock : Clock) (sessionId : String) (mapping : PersistedOpaqueMapping)
  /-- The same call on another instance: a record appears in the backend. -/
  | rotateElsewhere (sessionId : String) (mapping : PersistedOpaqueMapping)
  /-- `hydrate_opaque`, and one record of the boot. -/
  | hydrate (clock : Clock) (sessionId : String) (mapping : PersistedOpaqueMapping)
  /-- `expire_opaque_access`. -/
  | expireAccess (opaqueAccess : String)
  /-- `remove_opaque_for_session_locked`. -/
  | remove (sessionId : String)
  /-- The index cleanup of `purge_expired`. -/
  | purge (expiredKeys : List String)

def purged (idx : OpaqueIndex) (expiredKeys : List String) : OpaqueIndex :=
  expiredKeys.foldl (fun idx key => (idx.removeSession key).1) idx

def Indexed.apply (st : Indexed) : Site → Indexed
  | .rotate clock sessionId mapping =>
    { index := (st.index.removeSession sessionId).1.insert clock sessionId mapping
      issued := (sessionId, mapping) :: st.issued }
  | .rotateElsewhere sessionId mapping => { st with issued := (sessionId, mapping) :: st.issued }
  | .hydrate clock sessionId mapping =>
    { st with index := st.index.insert clock sessionId mapping }
  | .expireAccess opaqueAccess => { st with index := st.index.setBinding .access opaqueAccess none }
  | .remove sessionId => { st with index := (st.index.removeSession sessionId).1 }
  | .purge expiredKeys => { st with index := st.index.purged expiredKeys }

/-- A rotation mints new tokens, and what is hydrated was issued for its
session. -/
def Fresh (st : Indexed) : Site → Prop
  | .rotate _ _ mapping | .rotateElsewhere _ mapping =>
    ∀ e ∈ st.issued, e.2.opaqueAccess ≠ mapping.opaqueAccess ∧
      e.2.opaqueRefresh ≠ mapping.opaqueRefresh
  | .hydrate _ sessionId mapping => (sessionId, mapping) ∈ st.issued
  | .expireAccess _ | .remove _ | .purge _ => True

def indexing : System Indexed Site := ⟨fun st site => some (st.apply site)⟩

def Indexed.init : Indexed := ⟨empty, []⟩

/-! ## The invariant -/

/-- The refresh token of every mapping is bound to its session. -/
def Bound (idx : OpaqueIndex) : Prop :=
  ∀ s m, idx.sessionToOpaques s = some m →
    ∃ b, idx.toSession .refresh m.opaqueRefresh = some b ∧ b.sessionId = s

/-- The inverse maps are those of `sessionToOpaques`. An access token may be
gone before its mapping, a refresh token may not. -/
structure Inverse (idx : OpaqueIndex) : Prop where
  access : ∀ a b, idx.toSession .access a = some b →
    ∃ m, idx.sessionToOpaques b.sessionId = some m ∧ m.opaqueAccess = a
  refresh : ∀ r s, (∃ b, idx.toSession .refresh r = some b ∧ b.sessionId = s) ↔
    ∃ m, idx.sessionToOpaques s = some m ∧ m.opaqueRefresh = r

/-- No two issues share a token. -/
def Distinct (issued : List (String × PersistedOpaqueMapping)) : Prop :=
  ∀ e ∈ issued, ∀ e' ∈ issued, ∀ kind, e.2.token kind = e'.2.token kind → e = e'

/-- The mappings of the index are issued. -/
def Known (idx : OpaqueIndex) (issued : List (String × PersistedOpaqueMapping)) : Prop :=
  ∀ s m, idx.sessionToOpaques s = some m → (s, m) ∈ issued

variable {idx : OpaqueIndex} {issued : List (String × PersistedOpaqueMapping)}
  {s s' : String} {m m' : PersistedOpaqueMapping} {clock : Clock} {st st' : Indexed}

theorem Bound.inverse (hb : idx.Bound) (hc : idx.Consistent) : idx.Inverse where
  access a b h := by
    obtain ⟨m, hm, htoken, -⟩ := hc .access a b h
    exact ⟨m, hm, htoken⟩
  refresh r s := by
    constructor
    · rintro ⟨b, h, rfl⟩
      obtain ⟨m, hm, htoken, -⟩ := hc .refresh r b h
      exact ⟨m, hm, htoken⟩
    · rintro ⟨m, hm, rfl⟩
      exact hb s m hm

/-- Two sessions of the index have different refresh tokens. -/
theorem Known.refresh_ne (hk : idx.Known issued) (hd : Distinct issued)
    (hm : idx.sessionToOpaques s = some m) (hm' : (s', m') ∈ issued) (hne : s ≠ s') :
    m.opaqueRefresh ≠ m'.opaqueRefresh := by
  intro htoken
  have h := hd (s, m) (hk s m hm) (s', m') hm' .refresh htoken
  exact hne (congrArg Prod.fst h)

theorem Known.removeSession (hk : idx.Known issued) (s : String) :
    (idx.removeSession s).1.Known issued := by
  intro s' m hm
  rw [removeSession_sessions] at hm
  by_cases hs : s' = s
  · rw [hs, Function.update_self] at hm
    cases hm
  · rw [Function.update_of_ne hs] at hm
    exact hk s' m hm

theorem Bound.removeSession (hb : idx.Bound) (hk : idx.Known issued) (hd : Distinct issued)
    (s : String) : (idx.removeSession s).1.Bound := by
  intro s' m hm
  rw [removeSession_sessions] at hm
  have hs : s' ≠ s := by
    rintro rfl
    rw [Function.update_self] at hm
    cases hm
  rw [Function.update_of_ne hs] at hm
  obtain ⟨b, hbind, hsession⟩ := hb s' m hm
  refine ⟨b, ?_, hsession⟩
  unfold OpaqueIndex.removeSession
  cases hold : idx.sessionToOpaques s with
  | none => exact hbind
  | some old =>
    -- What is taken out belongs to another mapping.
    have hne : m.opaqueRefresh ≠ old.opaqueRefresh :=
      hk.refresh_ne hd hm (hk s old hold) hs
    show ((OpaqueIndex.setBinding _ .access old.opaqueAccess none).setBinding .refresh
      old.opaqueRefresh none).toSession .refresh m.opaqueRefresh = some b
    rw [setBinding_other (.inr hne), setBinding_other (.inl (by decide))]
    exact hbind

theorem Known.insert (hk : idx.Known issued) (clock : Clock) (hm : (s, m) ∈ issued) :
    (idx.insert clock s m).Known issued := by
  intro s' m' hm'
  rcases insert_sessions idx clock s m with h | h
  · rw [h] at hm'
    exact hk s' m' hm'
  · rw [h] at hm'
    by_cases hs : s' = s
    · rw [hs, Function.update_self] at hm'
      cases hm'
      rw [hs]
      exact hm
    · rw [Function.update_of_ne hs] at hm'
      exact hk s' m' hm'

theorem Bound.insert (hb : idx.Bound) (hk : idx.Known issued) (hd : Distinct issued)
    (clock : Clock) (hm : (s, m) ∈ issued) : (idx.insert clock s m).Bound := by
  by_cases hexp : remainingUntilUnixMillis clock m.refreshExpiresAtUnixMs = 0
  · rw [insert_of_expired hexp]
    exact hb
  · obtain ⟨access, haccess, expiresAt, heq⟩ := insert_of_live idx s hexp
    rw [heq]
    intro s' m' hm'
    by_cases hs : s' = s
    · subst hs
      have hself : m' = m := by
        have hm' : Function.update (idx.removeSession s').1.sessionToOpaques s' (some m) s' =
          some m' := hm'
        rw [Function.update_self] at hm'
        exact (Option.some.inj hm').symm
      subst hself
      exact ⟨⟨s', expiresAt, m'.issue⟩,
        setBinding_self access .refresh m'.opaqueRefresh (some ⟨s', expiresAt, m'.issue⟩), rfl⟩
    · have hm' : Function.update (idx.removeSession s).1.sessionToOpaques s (some m) s' =
        some m' := hm'
      rw [Function.update_of_ne hs] at hm'
      obtain ⟨b, hbind, hsession⟩ := hb.removeSession hk hd s s' m' hm'
      have hne : m'.opaqueRefresh ≠ m.opaqueRefresh :=
        (hk.removeSession s).refresh_ne hd hm' hm hs
      refine ⟨b, ?_, hsession⟩
      show (access.setBinding .refresh m.opaqueRefresh _).toSession .refresh m'.opaqueRefresh =
        some b
      rw [setBinding_other (.inr hne)]
      rcases haccess with rfl | ⟨accessExpiresAt, rfl⟩
      · exact hbind
      · rw [setBinding_other (.inl (by decide))]
        exact hbind

/-! ## A run -/

/-- What every site keeps. -/
structure Inv (st : Indexed) : Prop where
  consistent : st.index.Consistent
  bound : st.index.Bound
  known : st.index.Known st.issued
  distinct : Distinct st.issued

theorem Distinct.cons (hd : Distinct issued)
    (hfresh : ∀ e ∈ issued, e.2.opaqueAccess ≠ m.opaqueAccess ∧
      e.2.opaqueRefresh ≠ m.opaqueRefresh) : Distinct ((s, m) :: issued) := by
  have hother : ∀ e ∈ issued, ∀ kind, e.2.token kind ≠ m.token kind := by
    intro e he kind
    cases kind with
    | access => exact (hfresh e he).1
    | refresh => exact (hfresh e he).2
  intro e he e' he' kind htoken
  rcases List.mem_cons.mp he with rfl | he
  · rcases List.mem_cons.mp he' with rfl | he'
    · rfl
    · exact absurd htoken.symm (hother e' he' kind)
  · rcases List.mem_cons.mp he' with rfl | he'
    · exact absurd htoken (hother e he kind)
    · exact hd e he e' he' kind htoken

/-- A mapping that is issued changes no index. -/
theorem Inv.issue (hi : Inv st)
    (hfresh : ∀ e ∈ st.issued, e.2.opaqueAccess ≠ m.opaqueAccess ∧
      e.2.opaqueRefresh ≠ m.opaqueRefresh) :
    Inv { st with issued := (s, m) :: st.issued } where
  consistent := hi.consistent
  bound := hi.bound
  known s' m' hm' := List.mem_cons_of_mem _ (hi.known s' m' hm')
  distinct := hi.distinct.cons hfresh

theorem Inv.removeSession (hi : Inv st) (s : String) :
    Inv { st with index := (st.index.removeSession s).1 } where
  consistent := hi.consistent.removeSession s
  bound := hi.bound.removeSession hi.known hi.distinct s
  known := hi.known.removeSession s
  distinct := hi.distinct

theorem Inv.insert (hi : Inv st) (clock : Clock) (hm : (s, m) ∈ st.issued) :
    Inv { st with index := st.index.insert clock s m } where
  consistent := hi.consistent.insert clock s m
  bound := hi.bound.insert hi.known hi.distinct clock hm
  known := hi.known.insert clock hm
  distinct := hi.distinct

theorem Inv.purged (hi : Inv st) (expiredKeys : List String) :
    Inv { st with index := st.index.purged expiredKeys } := by
  induction expiredKeys generalizing st with
  | nil => exact hi
  | cons key expiredKeys ih => exact ih (hi.removeSession key)

theorem Inv.expireAccess (hi : Inv st) (opaqueAccess : String) :
    Inv { st with index := st.index.setBinding .access opaqueAccess none } where
  consistent := hi.consistent.expire .access opaqueAccess
  bound s m hm := by
    obtain ⟨b, hbind, hsession⟩ := hi.bound s m hm
    refine ⟨b, ?_, hsession⟩
    rw [setBinding_other (.inl (by decide))]
    exact hbind
  known := hi.known
  distinct := hi.distinct

/-- Every site keeps the invariant. -/
theorem Inv.apply (hi : Inv st) (site : Site) (hfresh : Fresh st site) : Inv (st.apply site) := by
  cases site with
  | rotate clock s m =>
    have hissued : Inv { st with issued := (s, m) :: st.issued } := hi.issue hfresh
    exact (hissued.removeSession s).insert clock (List.mem_cons_self ..)
  | rotateElsewhere s m => exact hi.issue hfresh
  | hydrate clock s m => exact hi.insert clock hfresh
  | expireAccess opaqueAccess => exact hi.expireAccess opaqueAccess
  | remove s => exact hi.removeSession s
  | purge expiredKeys => exact hi.purged expiredKeys

theorem Inv.init : Inv Indexed.init where
  consistent := consistent_empty
  bound s m hm := by cases hm
  known s m hm := by cases hm
  distinct e he := by cases he

theorem inv_of_reach (h : indexing.Reach Fresh Indexed.init st) : Inv st := by
  refine h.invariant Inv.init ?_
  intro st site st' hi hfresh hstep
  cases hstep
  exact hi.apply site hfresh

/-- A token of the index is that of the mapping its session has now. -/
theorem Inv.not_stale (hi : Inv st) (hm : (s, m) ∈ st.issued)
    (hgone : st.index.sessionToOpaques s ≠ some m) (kind : OpaqueKind) :
    st.index.toSession kind (m.token kind) = none := by
  cases hbind : st.index.toSession kind (m.token kind) with
  | none => rfl
  | some b =>
    obtain ⟨m', hm', htoken, -⟩ := hi.consistent kind (m.token kind) b hbind
    have heq := hi.distinct (b.sessionId, m') (hi.known _ _ hm') (s, m) hm kind htoken
    cases heq
    exact absurd hm' hgone

/-- **The representation invariant**: through any run of the mutation sites with
fresh tokens, the maps are inverse to each other, a session owns at most one
token of each kind, and no token of a removed or replaced mapping is left. -/
theorem maps_stay_inverse (h : indexing.Reach Fresh Indexed.init st) :
    st.index.Inverse ∧
    (∀ kind token token' b b', st.index.toSession kind token = some b →
      st.index.toSession kind token' = some b' → b.sessionId = b'.sessionId → token = token') ∧
    (∀ s m, (s, m) ∈ st.issued → st.index.sessionToOpaques s ≠ some m →
      ∀ kind, st.index.toSession kind (m.token kind) = none) := by
  have hi := inv_of_reach h
  refine ⟨hi.bound.inverse hi.consistent, ?_, fun s m hm hgone => hi.not_stale hm hgone⟩
  intro kind token token' b b' hb hb' hsession
  obtain ⟨m, hm, htoken, -⟩ := hi.consistent kind token b hb
  obtain ⟨m', hm', htoken', -⟩ := hi.consistent kind token' b' hb'
  rw [hsession, hm'] at hm
  cases hm
  rw [← htoken, ← htoken']

/-- A login, and the rotation that follows it. -/
def login : PersistedOpaqueMapping := ⟨"access-1", "refresh-1", 3600000, 2592000000, 0⟩

def rotation : PersistedOpaqueMapping := ⟨"access-2", "refresh-2", 3660000, 2592060000, 1⟩

def rotated : Indexed :=
  (Indexed.init.apply (.rotate ⟨0, 0⟩ "session" login)).apply
    (.rotate ⟨60000000000, 60000000000⟩ "session" rotation)

theorem maps_stay_inverse_when_rotated :
    rotated.index.Inverse ∧ rotated.index.toSession .refresh "refresh-1" = none := by
  have hfirst : Fresh Indexed.init (.rotate ⟨0, 0⟩ "session" login) := by
    intro e he
    cases he
  have hsecond : Fresh (Indexed.init.apply (.rotate ⟨0, 0⟩ "session" login))
      (.rotate ⟨60000000000, 60000000000⟩ "session" rotation) := by
    intro e he
    cases List.mem_singleton.mp he
    exact ⟨by decide, by decide⟩
  have hreach : indexing.Reach Fresh Indexed.init rotated :=
    .step (.step .refl hfirst rfl) hsecond rfl
  obtain ⟨hinverse, -, hstale⟩ := maps_stay_inverse hreach
  refine ⟨hinverse, hstale "session" login ?_ (by decide) .refresh⟩
  exact List.mem_cons_of_mem _ (List.mem_cons_self ..)

end McpFramework.OpaqueIndex
