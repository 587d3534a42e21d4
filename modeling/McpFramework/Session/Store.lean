import McpFramework.Core.Time
import McpFramework.Lib.HashMap

/-!
# Session — Store

`SessionStore` with all its sessions (`session/mod.rs`), each operation run to
its end before the next one starts. What replicas do to one session
concurrently is the business of the session protocol; with nobody else under
way the locks change nothing, and they are left out here.

A persisted record that does not parse reads as an absent one.
-/

namespace McpFramework

open Lib

variable {T : Type*}

/-- Internal entry wrapping session data with a last-access timestamp. -/
structure SessionEntry (T : Type*) where
  data : T
  lastAccess : Nat
deriving DecidableEq

/-- The persisted form. `remainingTtlSecs` is the legacy format, read and never
written. -/
structure PersistedSession (T : Type*) where
  data : T
  expiresAtUnixMs : Option Nat
  remainingTtlSecs : Option Nat
deriving DecidableEq

/-- A deadline that has passed, as `load_session_from_backend` finds it. -/
def PersistedSession.expired (p : PersistedSession T) (clock : Clock) : Bool :=
  match p.expiresAtUnixMs with
  | some deadline => decide (remainingUntilUnixMillis clock deadline = 0)
  | none => false

/-- The time a record has left, as `load_persisted` finds it. -/
def PersistedSession.remaining (p : PersistedSession T) (clock : Clock) : Nat :=
  match p.expiresAtUnixMs with
  | some deadline => remainingUntilUnixMillis clock deadline
  | none => Duration.fromSecs (p.remainingTtlSecs.getD 0)

structure SessionStore (T : Type*) where
  sessions : HashMap String (SessionEntry T)
  ttl : Nat
  persistence : Option (HashMap String (PersistedSession T))

/-- Which of the backend calls of an operation succeed. -/
structure BackendAnswers where
  get : Bool
  deleteExpired : Bool
  persist : Bool
  delete : Bool
deriving DecidableEq

def BackendAnswers.ok : BackendAnswers := ⟨true, true, true, true⟩

namespace SessionStore

def new (ttl : Nat) (persistence : Option (HashMap String (PersistedSession T))) :
    SessionStore T :=
  { sessions := HashMap.empty, ttl := ttl, persistence := persistence }

/-- The persisted record of a session. -/
def record (st : SessionStore T) (sessionId : String) : Option (PersistedSession T) :=
  st.persistence.bind fun b => b.get? sessionId

def setRecord (st : SessionStore T) (sessionId : String) (p : Option (PersistedSession T)) :
    SessionStore T :=
  { st with persistence := st.persistence.map fun b => b.set sessionId p }

/-- The data of the entry in memory. -/
def cached (st : SessionStore T) (sessionId : String) : Option T :=
  (st.sessions.get? sessionId).map (·.data)

/-- The entry in memory is of now. -/
def setEntry (st : SessionStore T) (clock : Clock) (sessionId : String) (data : T) :
    SessionStore T :=
  { st with sessions := st.sessions.insert sessionId ⟨data, clock.now⟩ }

def persistEntry (st : SessionStore T) (clock : Clock) (answers : BackendAnswers)
    (sessionId : String) (data : T) : SessionStore T :=
  if answers.persist then
    st.setRecord sessionId
      (some { data := data
              expiresAtUnixMs := some (instantToUnixMillis clock (clock.now + st.ttl))
              remainingTtlSecs := none })
  else st

/-- Read a session directly from the backend. An expired record is deleted. -/
def loadSessionFromBackend (st : SessionStore T) (clock : Clock) (answers : BackendAnswers)
    (sessionId : String) : SessionStore T × Option T :=
  match st.record sessionId with
  | some p =>
    if answers.get then
      if p.expired clock then
        (if answers.deleteExpired then st.setRecord sessionId none else st, none)
      else (st, some p.data)
    else (st, none)
  | none => (st, none)

/-- The entry and the record of a session, of now. -/
def touch (st : SessionStore T) (clock : Clock) (answers : BackendAnswers) (sessionId : String)
    (data : T) : SessionStore T :=
  (st.setEntry clock sessionId data).persistEntry clock answers sessionId data

def get (st : SessionStore T) (clock : Clock) (answers : BackendAnswers) (sessionId : String) :
    SessionStore T × Option T :=
  let (st, persisted) := st.loadSessionFromBackend clock answers sessionId
  match persisted.or (st.cached sessionId) with
  | some data => (st.touch clock answers sessionId data, some data)
  | none => (st, none)

def remove (st : SessionStore T) (clock : Clock) (answers : BackendAnswers) (sessionId : String) :
    SessionStore T × Option T :=
  let (st, persisted) := st.loadSessionFromBackend clock answers sessionId
  let removed := persisted.or (st.cached sessionId)
  let st := { st with sessions := st.sessions.remove sessionId }
  (if removed.isSome && answers.delete then st.setRecord sessionId none else st, removed)

section Default

variable [Inhabited T]

/-- The data an operation that creates a session starts from. -/
def source (st : SessionStore T) (loaded : Option T) (sessionId : String) : T :=
  loaded.getD ((st.cached sessionId).getD default)

def getOrCreate (st : SessionStore T) (clock : Clock) (answers : BackendAnswers)
    (sessionId : String) : SessionStore T × T :=
  let (st, loaded) := st.loadSessionFromBackend clock answers sessionId
  let data := st.source loaded sessionId
  (st.touch clock answers sessionId data, data)

def update (st : SessionStore T) (clock : Clock) (answers : BackendAnswers) (sessionId : String)
    (f : T → T) : SessionStore T × T :=
  let (st, loaded) := st.loadSessionFromBackend clock answers sessionId
  let data := f (st.source loaded sessionId)
  (st.touch clock answers sessionId data, data)

end Default

/-! ## All sessions -/

def expiredKeys (st : SessionStore T) (now : Nat) : List String :=
  (st.sessions.entries.filter fun e => decide (now - e.2.lastAccess ≥ st.ttl)).map (·.1)

/-- Purge all sessions whose last access is older than the TTL. A record is
deleted only when it has expired itself. -/
def purgeExpired (st : SessionStore T) (clock : Clock) (answers : String → BackendAnswers) :
    SessionStore T :=
  let expiredKeys := st.expiredKeys clock.now
  expiredKeys.foldl (fun st key => (st.loadSessionFromBackend clock (answers key) key).1)
    { st with sessions := st.sessions.removeAll expiredKeys }

/-- The entry a record is restored as; a record with no time left is not. -/
def restoredEntry (st : SessionStore T) (clock : Clock) (p : PersistedSession T) :
    Option (SessionEntry T) :=
  let remaining := p.remaining clock
  if remaining = 0 then none
  else some { data := p.data, lastAccess := clock.now - (st.ttl - min remaining st.ttl) }

/-- The records of some keys, read one after the other. A backend call that
fails ends it, and nothing is restored. -/
def loadEntries (st : SessionStore T) (clock : Clock) (answers : String → BackendAnswers)
    (keys : List String) (entries : List (String × SessionEntry T)) :
    SessionStore T × Option (List (String × SessionEntry T)) :=
  match keys with
  | [] => (st, some entries)
  | key :: keys =>
    if (answers key).get then
      match st.record key with
      | none => loadEntries st clock answers keys entries
      | some p =>
        match st.restoredEntry clock p with
        | some entry => loadEntries st clock answers keys (entries ++ [(key, entry)])
        | none =>
          if (answers key).deleteExpired then
            loadEntries (st.setRecord key none) clock answers keys entries
          else (st, none)
    else (st, none)

/-- Load all sessions from the backend into memory; `listed` says whether the
backend lists its keys. -/
def loadPersisted (st : SessionStore T) (clock : Clock) (listed : Bool)
    (answers : String → BackendAnswers) : SessionStore T :=
  match st.persistence with
  | none => st
  | some b =>
    if listed then
      match st.loadEntries clock answers b.keys [] with
      | (st, some entries) =>
        { st with sessions := entries.foldl (fun m e => m.insert e.1 e.2) st.sessions }
      | (st, none) => st
    else st

/-! ## The records -/

variable {st st' : SessionStore T} {clock : Clock} {answers : BackendAnswers} {s s' : String}

theorem sessions_load (st : SessionStore T) (clock : Clock) (answers : BackendAnswers)
    (s : String) : (st.loadSessionFromBackend clock answers s).1.sessions = st.sessions := by
  unfold loadSessionFromBackend
  split
  · split
    · split
      · split <;> rfl
      · rfl
    · rfl
  · rfl

/-- Expired records are not served. -/
theorem load_of_expired (h : ∀ p, st.record s = some p → p.expired clock = true) :
    (st.loadSessionFromBackend clock answers s).2 = none := by
  unfold loadSessionFromBackend
  split
  · rename_i p hp
    rw [h p hp]
    split <;> rfl
  · rfl

theorem record_setRecord_none : (st.setRecord s none).record s' =
    if s' = s then none else st.record s' := by
  unfold setRecord record
  cases st.persistence with
  | none => simp
  | some b => exact HashMap.get?_set b s s' none

theorem setRecord_of_absent (h : st.record s = none) : st.setRecord s none = st := by
  obtain ⟨sessions, ttl, persistence⟩ := st
  cases persistence with
  | none => rfl
  | some b =>
    have hb : b.containsKey s = false := by
      have h : b.get? s = none := h
      rw [HashMap.containsKey, h]
      rfl
    simp only [setRecord, Option.map_some, HashMap.set, HashMap.remove_of_absent b hb]

/-- A record that is written is there only if there is a backend. -/
theorem of_record_setRecord {p q : PersistedSession T}
    (h : (st.setRecord s (some p)).record s' = some q) :
    (s' = s ∧ q = p) ∨ st.record s' = some q := by
  unfold setRecord record at h
  cases hb : st.persistence with
  | none =>
    rw [hb] at h
    cases h
  | some b =>
    rw [hb] at h
    have h : (b.set s (some p)).get? s' = some q := h
    rw [HashMap.get?_set] at h
    split at h
    · rename_i hs
      exact .inl ⟨hs, (Option.some.inj h).symm⟩
    · refine .inr ?_
      rw [record, hb]
      exact h

/-- Records only go away. -/
structure Drops (st st' : SessionStore T) : Prop where
  ttl : st'.ttl = st.ttl
  record : ∀ s p, st'.record s = some p → st.record s = some p

/-- Records only go away, but for that of `s`, which may be written now. -/
structure Touches (clock : Clock) (s : String) (st st' : SessionStore T) : Prop where
  ttl : st'.ttl = st.ttl
  record : ∀ s' p, st'.record s' = some p → st.record s' = some p ∨
    (s' = s ∧ p.expiresAtUnixMs = some (instantToUnixMillis clock (clock.now + st.ttl)))

theorem Drops.refl (st : SessionStore T) : Drops st st := ⟨rfl, fun _ _ h => h⟩

theorem Drops.trans {st₁ st₂ : SessionStore T} (h : Drops st st₁) (h' : Drops st₁ st₂) :
    Drops st st₂ :=
  ⟨h'.ttl.trans h.ttl, fun s p hp => h.record s p (h'.record s p hp)⟩

theorem Drops.touches (h : Drops st st') : Touches clock s st st' :=
  ⟨h.ttl, fun s' p hp => .inl (h.record s' p hp)⟩

theorem drops_setRecord_none (st : SessionStore T) (s : String) : Drops st (st.setRecord s none) := by
  refine ⟨rfl, ?_⟩
  intro s' p hp
  rw [record_setRecord_none] at hp
  split at hp
  · cases hp
  · exact hp

theorem drops_load (st : SessionStore T) (clock : Clock) (answers : BackendAnswers) (s : String) :
    Drops st (st.loadSessionFromBackend clock answers s).1 := by
  unfold loadSessionFromBackend
  split
  · split
    · split
      · split
        · exact drops_setRecord_none st s
        · exact Drops.refl st
      · exact Drops.refl st
    · exact Drops.refl st
  · exact Drops.refl st

theorem Drops.touch (h : Drops st st') (clock : Clock) (answers : BackendAnswers) (s : String)
    (data : T) : Touches clock s st (st'.touch clock answers s data) := by
  unfold SessionStore.touch persistEntry
  split
  · refine ⟨h.ttl, ?_⟩
    intro s' p hp
    rcases of_record_setRecord hp with ⟨hs, rfl⟩ | hold
    · refine .inr ⟨hs, ?_⟩
      show some (instantToUnixMillis clock (clock.now + st'.ttl)) = _
      rw [h.ttl]
    · exact .inl (h.record s' p hold)
  · exact ⟨h.ttl, fun s' p hp => .inl (h.record s' p hp)⟩

theorem touches_get (st : SessionStore T) (clock : Clock) (answers : BackendAnswers) (s : String) :
    Touches clock s st (st.get clock answers s).1 := by
  have hload := drops_load st clock answers s
  unfold get
  dsimp only
  split
  · exact hload.touch clock answers s _
  · exact hload.touches

/-- A `get` that finds nothing writes nothing. -/
theorem drops_get (h : (st.get clock answers s).2 = none) :
    Drops st (st.get clock answers s).1 := by
  have hload := drops_load st clock answers s
  unfold get at h ⊢
  dsimp only at h ⊢
  split at h
  · cases h
  · exact hload

theorem drops_remove (st : SessionStore T) (clock : Clock) (answers : BackendAnswers) (s : String) :
    Drops st (st.remove clock answers s).1 := by
  have hload := drops_load st clock answers s
  have hmemory : Drops st { (st.loadSessionFromBackend clock answers s).1 with
      sessions := (st.loadSessionFromBackend clock answers s).1.sessions.remove s } :=
    ⟨hload.ttl, hload.record⟩
  unfold remove
  dsimp only
  split
  · exact hmemory.trans (drops_setRecord_none _ s)
  · exact hmemory

theorem drops_purgeExpired (st : SessionStore T) (clock : Clock)
    (answers : String → BackendAnswers) : Drops st (st.purgeExpired clock answers) := by
  unfold purgeExpired
  have hfold : ∀ (keys : List String) (st : SessionStore T), Drops st
      (keys.foldl (fun st key => (st.loadSessionFromBackend clock (answers key) key).1) st) := by
    intro keys
    induction keys with
    | nil => exact Drops.refl
    | cons key keys ih =>
      intro st
      exact (drops_load st clock (answers key) key).trans (ih _)
  have hmemory : Drops st { st with sessions := st.sessions.removeAll (st.expiredKeys clock.now) } :=
    ⟨rfl, fun _ _ h => h⟩
  exact hmemory.trans (hfold (st.expiredKeys clock.now) _)

theorem drops_loadEntries (clock : Clock) (answers : String → BackendAnswers)
    (keys : List String) (st : SessionStore T) (entries : List (String × SessionEntry T)) :
    Drops st (st.loadEntries clock answers keys entries).1 := by
  induction keys generalizing st entries with
  | nil => exact Drops.refl st
  | cons key keys ih =>
    unfold loadEntries
    split
    · split
      · exact ih st entries
      · split
        · exact ih st _
        · split
          · exact (drops_setRecord_none st key).trans (ih _ entries)
          · exact Drops.refl st
    · exact Drops.refl st

theorem drops_loadPersisted (st : SessionStore T) (clock : Clock) (listed : Bool)
    (answers : String → BackendAnswers) : Drops st (st.loadPersisted clock listed answers) := by
  unfold loadPersisted
  split
  · exact Drops.refl st
  · rename_i b hb
    split
    · have hload := drops_loadEntries clock answers b.keys st []
      split
      · rename_i h
        rw [h] at hload
        exact ⟨hload.ttl, hload.record⟩
      · rename_i h
        rw [h] at hload
        exact hload
    · exact Drops.refl st

section Default

variable [Inhabited T]

theorem touches_getOrCreate (st : SessionStore T) (clock : Clock) (answers : BackendAnswers)
    (s : String) : Touches clock s st (st.getOrCreate clock answers s).1 :=
  (drops_load st clock answers s).touch clock answers s _

theorem touches_update (st : SessionStore T) (clock : Clock) (answers : BackendAnswers)
    (s : String) (f : T → T) : Touches clock s st (st.update clock answers s f).1 :=
  (drops_load st clock answers s).touch clock answers s _

end Default

end SessionStore
end McpFramework
