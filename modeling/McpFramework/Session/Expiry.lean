import McpFramework.Lib.Transition
import McpFramework.Session.Store

/-!
# Session — Expiry

When session data that has expired is served, over any run of the operations of
a `SessionStore`, and whether the two ways of reading a record agree on which
sessions are alive.

A persisted record carries a deadline one TTL after the access that wrote it,
and every read compares it with the clock. An entry in memory carries the access
itself, which only the purge looks at: between the end of its TTL and the next
purge an entry is served like any other, and serving it starts its TTL again.
-/

namespace McpFramework.SessionStore

open Lib

variable {T : Type*}

/-! ## Runs -/

/-- A store as time goes by. `lastAccess` is ghost: the wall clock when data of a
session was last served or written. -/
structure Timed (T : Type*) where
  store : SessionStore T
  clock : Clock
  lastAccess : String → Option Nat

inductive Timed.Label (T : Type*) where
  | tick (d : Nat)
  | get (answers : BackendAnswers) (sessionId : String)
  | getOrCreate (answers : BackendAnswers) (sessionId : String)
  | update (answers : BackendAnswers) (sessionId : String) (f : T → T)
  | remove (answers : BackendAnswers) (sessionId : String)
  | purgeExpired (answers : String → BackendAnswers)
  | loadPersisted (listed : Bool) (answers : String → BackendAnswers)
  /-- The backend drops a record at the end of its TTL. -/
  | lapse (sessionId : String)

/-- The store after an access to a session. -/
def Timed.accessed (st : Timed T) (store : SessionStore T) (sessionId : String) : Timed T :=
  { st with
    store := store
    lastAccess := Function.update st.lastAccess sessionId (some st.clock.unix) }

def Timed.apply [Inhabited T] (st : Timed T) : Timed.Label T → Timed T
  | .tick d => { st with clock := ⟨st.clock.now + d, st.clock.unix + d⟩ }
  | .get answers s =>
    let r := st.store.get st.clock answers s
    if r.2.isSome then st.accessed r.1 s else { st with store := r.1 }
  | .getOrCreate answers s => st.accessed (st.store.getOrCreate st.clock answers s).1 s
  | .update answers s f => st.accessed (st.store.update st.clock answers s f).1 s
  | .remove answers s => { st with store := (st.store.remove st.clock answers s).1 }
  | .purgeExpired answers => { st with store := st.store.purgeExpired st.clock answers }
  | .loadPersisted listed answers =>
    { st with store := st.store.loadPersisted st.clock listed answers }
  | .lapse s => { st with store := st.store.setRecord s none }

def timing (T : Type*) [Inhabited T] : System (Timed T) (Timed.Label T) :=
  ⟨fun st label => some (st.apply label)⟩

/-- The records' deadlines are at most one TTL after the last access. -/
structure Dated (st : Timed T) : Prop where
  record : ∀ s p, st.store.record s = some p → ∃ w, st.lastAccess s = some w ∧
    ∃ deadline, p.expiresAtUnixMs = some deadline ∧
      deadline ≤ Duration.asMillis64 (w + st.store.ttl)
  access : ∀ s w, st.lastAccess s = some w → w ≤ st.clock.unix

/-- A process that starts over what earlier ones have persisted, or over
nothing: its memory is empty. -/
structure Started (st : Timed T) : Prop where
  memory : st.store.sessions = HashMap.empty
  dated : Dated st

/-- The session has no data any more: `get` finds none, and what creates a
session starts from the default. -/
def StartsOver [Inhabited T] (st : SessionStore T) (clock : Clock) (s : String) : Prop :=
  ∀ answers, (st.get clock answers s).2 = none ∧
    (st.getOrCreate clock answers s).2 = default ∧
    ∀ f, (st.update clock answers s f).2 = f default

/-! ## The deadlines of the records -/

variable {st st' st₀ : Timed T} {store : SessionStore T} {clock : Clock} {s : String} {w : Nat}

theorem Dated.drops (h : Dated st) (hd : Drops st.store store) :
    Dated { st with store := store } where
  record s p hp := by
    obtain ⟨w, hw, deadline, hdeadline, hle⟩ := h.record s p (hd.record s p hp)
    refine ⟨w, hw, deadline, hdeadline, ?_⟩
    show deadline ≤ Duration.asMillis64 (w + store.ttl)
    rw [hd.ttl]
    exact hle
  access := h.access

/-- What an access writes is due one TTL later; what it leaves was due earlier. -/
theorem Dated.touches (h : Dated st) (ht : Touches st.clock s st.store store) :
    Dated (st.accessed store s) where
  record s' p hp := by
    show ∃ w, Function.update st.lastAccess s (some st.clock.unix) s' = some w ∧ _
    rcases ht.record s' p hp with hold | ⟨rfl, hnew⟩
    · obtain ⟨w, hw, deadline, hdeadline, hle⟩ := h.record s' p hold
      by_cases hs : s' = s
      · subst hs
        refine ⟨st.clock.unix, Function.update_self .., deadline, hdeadline, ?_⟩
        have hlater : w + st.store.ttl ≤ st.clock.unix + store.ttl := by
          have := h.access s' w hw
          have := ht.ttl
          omega
        exact le_trans hle (Duration.asMillis64_mono hlater)
      · refine ⟨w, ?_, deadline, hdeadline, ?_⟩
        · rw [Function.update_of_ne hs]
          exact hw
        · show deadline ≤ Duration.asMillis64 (w + store.ttl)
          rw [ht.ttl]
          exact hle
    · refine ⟨st.clock.unix, Function.update_self .., _, hnew, ?_⟩
      show instantToUnixMillis st.clock (st.clock.now + st.store.ttl) ≤
        Duration.asMillis64 (st.clock.unix + store.ttl)
      rw [ht.ttl, instantToUnixMillis, Nat.add_sub_cancel_left]
  access s' w hw := by
    have hw : Function.update st.lastAccess s (some st.clock.unix) s' = some w := hw
    by_cases hs : s' = s
    · rw [hs, Function.update_self] at hw
      cases hw
      exact le_refl _
    · rw [Function.update_of_ne hs] at hw
      exact h.access s' w hw

/-- Every operation keeps the records dated, whatever the backend answers. -/
theorem Dated.apply [Inhabited T] (h : Dated st) (label : Timed.Label T) :
    Dated (st.apply label) := by
  cases label with
  | tick d =>
    refine ⟨h.record, ?_⟩
    intro s w hw
    exact le_trans (h.access s w hw) (Nat.le_add_right ..)
  | get answers s =>
    unfold Timed.apply
    dsimp only
    split
    · exact h.touches (touches_get st.store st.clock answers s)
    · rename_i hmiss
      exact h.drops (drops_get (Option.not_isSome_iff_eq_none.mp hmiss))
  | getOrCreate answers s => exact h.touches (touches_getOrCreate st.store st.clock answers s)
  | update answers s f => exact h.touches (touches_update st.store st.clock answers s f)
  | remove answers s => exact h.drops (drops_remove st.store st.clock answers s)
  | purgeExpired answers => exact h.drops (drops_purgeExpired st.store st.clock answers)
  | loadPersisted listed answers =>
    exact h.drops (drops_loadPersisted st.store st.clock listed answers)
  | lapse s => exact h.drops (drops_setRecord_none st.store s)

theorem dated_of_reach [Inhabited T] (h₀ : Started st₀)
    (h : (timing T).Reach (fun _ _ => True) st₀ st) : Dated st := by
  refine h.invariant h₀.dated ?_
  intro st label st' hdated _ hstep
  cases hstep
  exact hdated.apply label

/-- One TTL after the last access the record has expired. -/
theorem Dated.expired (h : Dated st) (hw : st.lastAccess s = some w)
    (hold : w + st.store.ttl ≤ st.clock.unix) :
    ∀ p, st.store.record s = some p → p.expired st.clock = true := by
  intro p hp
  obtain ⟨w', hw', deadline, hdeadline, hle⟩ := h.record s p hp
  rw [hw] at hw'
  cases hw'
  have hpast : deadline ≤ Duration.asMillis64 st.clock.unix :=
    le_trans hle (Duration.asMillis64_mono hold)
  unfold PersistedSession.expired remainingUntilUnixMillis
  rw [hdeadline]
  simp [Duration.fromMillis, Nat.sub_eq_zero_of_le hpast]

/-! ## Serving what is cached -/

/-- With an expired record the data is that of the entry in memory. -/
theorem startsOver_iff_cached [Inhabited T]
    (h : ∀ p, store.record s = some p → p.expired clock = true) :
    StartsOver store clock s ↔ store.sessions.get? s = none := by
  have hcached : ∀ answers, (store.loadSessionFromBackend clock answers s).1.cached s =
      store.cached s := by
    intro answers
    unfold cached
    rw [sessions_load]
  constructor
  · intro hover
    have hget := (hover .ok).1
    unfold SessionStore.get at hget
    dsimp only at hget
    rw [load_of_expired h, Option.none_or, hcached] at hget
    unfold cached at hget
    cases he : store.sessions.get? s with
    | none => rfl
    | some e =>
      rw [he] at hget
      cases hget
  · intro hnone answers
    have hmiss : store.cached s = none := by
      unfold cached
      rw [hnone]
      rfl
    refine ⟨?_, ?_, ?_⟩
    · unfold SessionStore.get
      dsimp only
      rw [load_of_expired h, Option.none_or, hcached, hmiss]
    · unfold getOrCreate source
      dsimp only
      rw [load_of_expired h, hcached, hmiss]
      rfl
    · intro f
      unfold SessionStore.update source
      dsimp only
      rw [load_of_expired h, hcached, hmiss]
      rfl

/-- **When expired data is served**: in every state of every run, for a session
whose last access is at least one TTL ago, exactly when it is still cached. -/
theorem starts_over_iff_not_cached [Inhabited T] (h₀ : Started st₀)
    (h : (timing T).Reach (fun _ _ => True) st₀ st) (hw : st.lastAccess s = some w)
    (hold : w + st.store.ttl ≤ st.clock.unix) :
    StartsOver st.store st.clock s ↔ st.store.sessions.get? s = none :=
  startsOver_iff_cached ((dated_of_reach h₀ h).expired hw hold)

/-- A store without a backend, and half an hour after a session was written. -/
def startedNow : Timed Nat := ⟨new DEFAULT_SESSION_TTL none, ⟨0, 0⟩, fun _ => none⟩

def halfAnHourLater : Timed Nat :=
  (startedNow.apply (.update .ok "session" fun _ => 7)).apply (.tick DEFAULT_SESSION_TTL)

theorem started_startedNow : Started startedNow where
  memory := rfl
  dated := by
    constructor
    · intro s p hp
      cases hp
    · intro s w hw
      cases hw

/-- After a purge the session starts over. -/
theorem starts_over_when_purged :
    StartsOver (halfAnHourLater.apply (.purgeExpired fun _ => .ok)).store
      halfAnHourLater.clock "session" := by
  have hreach : (timing Nat).Reach (fun _ _ => True) startedNow
      (halfAnHourLater.apply (.purgeExpired fun _ => .ok)) :=
    .step (.step (.step .refl trivial rfl) trivial rfl) trivial rfl
  exact (starts_over_iff_not_cached (w := 0) started_startedNow hreach (by decide)
    (by decide)).mpr (by decide)

/-- Before the purge the session is served, a TTL after its last access. -/
theorem expired_session_served :
    ¬ ∀ (st₀ st : Timed Nat) (s : String) (w : Nat), Started st₀ →
      (timing Nat).Reach (fun _ _ => True) st₀ st → st.lastAccess s = some w →
      w + st.store.ttl ≤ st.clock.unix → StartsOver st.store st.clock s := by
  intro h
  have hreach : (timing Nat).Reach (fun _ _ => True) startedNow halfAnHourLater :=
    .step (.step .refl trivial rfl) trivial rfl
  have hover := h startedNow halfAnHourLater "session" 0 started_startedNow hreach (by decide)
    (by decide)
  have hget : (halfAnHourLater.store.get halfAnHourLater.clock .ok "session").2 = some 7 := by
    decide
  rw [(hover .ok).1] at hget
  cases hget

/-! ## Boot and read-through

Both with a backend that answers every call. -/

section Boot

variable {st : SessionStore T} {p : PersistedSession T} {b : HashMap String (PersistedSession T)}

/-- The entry the boot restores for a session. -/
def restorable (st : SessionStore T) (clock : Clock) (s : String) : Option (SessionEntry T) :=
  (st.record s).bind (st.restoredEntry clock)

/-- The boot looks at one key: it restores the session, or there is no record
left. -/
theorem loadEntries_cons_ok (st : SessionStore T) (clock : Clock) (key : String)
    (keys : List String) (entries : List (String × SessionEntry T)) :
    st.loadEntries clock (fun _ => .ok) (key :: keys) entries =
      match st.restorable clock key with
      | some entry => st.loadEntries clock (fun _ => .ok) keys (entries ++ [(key, entry)])
      | none => (st.setRecord key none).loadEntries clock (fun _ => .ok) keys entries := by
  have hget : BackendAnswers.ok.get = true := rfl
  have hdelete : BackendAnswers.ok.deleteExpired = true := rfl
  conv => lhs; unfold loadEntries
  rw [if_pos hget]
  unfold restorable
  cases hrec : st.record key with
  | none =>
    rw [Option.bind_none, setRecord_of_absent hrec]
  | some p =>
    rw [Option.bind_some]
    cases hentry : st.restoredEntry clock p with
    | some entry => simp only [hentry]
    | none => simp only [hentry, hdelete, if_true]

/-- The boot goes through all the keys, deletes the records with no time left
and restores the others. -/
theorem loadEntries_ok (st : SessionStore T) (clock : Clock) (keys : List String)
    (entries : List (String × SessionEntry T)) :
    ∃ st', st.loadEntries clock (fun _ => .ok) keys entries =
        (st', some (entries ++ keys.filterMap fun key =>
          (st.restorable clock key).map fun entry => (key, entry))) ∧
      st'.sessions = st.sessions ∧
      ∀ s, st'.record s =
        if s ∈ keys ∧ st.restorable clock s = none then none else st.record s := by
  induction keys generalizing st entries with
  | nil =>
    refine ⟨st, ?_, rfl, ?_⟩
    · simp [loadEntries]
    · simp
  | cons key keys ih =>
    rw [loadEntries_cons_ok]
    cases hrestore : st.restorable clock key with
    | some entry =>
      obtain ⟨st', heq, hsessions, hrecord⟩ := ih st (entries ++ [(key, entry)])
      refine ⟨st', ?_, hsessions, ?_⟩
      · rw [List.filterMap_cons, hrestore]
        simpa using heq
      · intro s
        rw [hrecord s]
        by_cases hs : s = key
        · simp [hs, hrestore]
        · simp only [List.mem_cons, hs, false_or]
    | none =>
      -- The later keys find the other records as they were.
      obtain ⟨st', heq, hsessions, hrecord⟩ := ih (st.setRecord key none) entries
      have hsame : (st.setRecord key none).restorable clock = st.restorable clock := by
        funext s
        unfold restorable
        rw [record_setRecord_none]
        by_cases hs : s = key
        · rw [if_pos hs, hs]
          exact hrestore.symm
        · rw [if_neg hs]
          rfl
      refine ⟨st', ?_, hsessions, ?_⟩
      · rw [List.filterMap_cons, hrestore, ← hsame]
        exact heq
      · intro s
        rw [hrecord s, hsame, record_setRecord_none]
        by_cases hs : s = key
        · simp [hs, hrestore]
        · simp only [List.mem_cons, hs, if_false, false_or]

theorem mem_keys_iff (hb : st.persistence = some b) (s : String) :
    s ∈ b.keys ↔ (st.record s).isSome := by
  rw [record, hb, ← HashMap.containsKey_iff]
  rfl

/-- What the boot leaves of a session, in memory and in the backend. -/
theorem loadPersisted_ok (hb : st.persistence = some b) (clock : Clock) (s : String) :
    (st.loadPersisted clock true fun _ => .ok).sessions.get? s =
        (st.restorable clock s).or (st.sessions.get? s) ∧
      (st.loadPersisted clock true fun _ => .ok).record s =
        if st.restorable clock s = none then none else st.record s := by
  obtain ⟨st', heq, hsessions, hrecord⟩ := loadEntries_ok st clock b.keys []
  unfold loadPersisted
  rw [hb]
  simp only [if_true, heq, List.nil_append]
  constructor
  · have hvalues : ∀ e ∈ b.keys.filterMap (fun key =>
        (st.restorable clock key).map fun entry => (key, entry)),
        st.restorable clock e.1 = some e.2 := by
      intro e he
      obtain ⟨key, -, hkey⟩ := List.mem_filterMap.mp he
      obtain ⟨entry, hentry, rfl⟩ := Option.map_eq_some_iff.mp hkey
      exact hentry
    rw [HashMap.get?_foldl_insert hvalues, hsessions]
    cases hentry : st.restorable clock s with
    | none =>
      rw [if_neg, Option.none_or]
      intro hmem
      obtain ⟨e, he, rfl⟩ := List.mem_map.mp hmem
      rw [hvalues e he] at hentry
      cases hentry
    | some entry =>
      have hkey : s ∈ b.keys := by
        rw [mem_keys_iff hb]
        obtain ⟨p, hp, -⟩ := Option.bind_eq_some_iff.mp hentry
        rw [hp]
        rfl
      rw [if_pos, Option.some_or]
      refine List.mem_map.mpr ⟨(s, entry), List.mem_filterMap.mpr ⟨s, hkey, ?_⟩, rfl⟩
      rw [hentry, Option.map_some]
  · show st'.record s = _
    rw [hrecord s]
    simp only [mem_keys_iff hb]
    cases hrec : st.record s with
    | none => simp
    | some p => simp

/-- What a read-through `get` returns and leaves of a record, on an instance
that has nothing cached. -/
theorem get_ok (hp : st.record s = some p) (hempty : st.sessions.get? s = none) (clock : Clock) :
    (p.expired clock = true ∧ (st.get clock .ok s).2 = none) ∨
      (p.expired clock = false ∧ (st.get clock .ok s).2 = some p.data ∧
        (st.get clock .ok s).1.record s ≠ none) := by
  have hload : st.loadSessionFromBackend clock .ok s =
      if p.expired clock then (st.setRecord s none, none) else (st, some p.data) := by
    unfold loadSessionFromBackend
    rw [hp]
    rfl
  unfold SessionStore.get
  rw [hload]
  cases hexp : p.expired clock with
  | true =>
    refine .inl ⟨rfl, ?_⟩
    have hcached : (st.setRecord s none).cached s = none := by
      show (st.sessions.get? s).map (·.data) = none
      rw [hempty]
      rfl
    simp only [if_true, Option.none_or, hcached]
  | false =>
    refine .inr ⟨rfl, rfl, ?_⟩
    obtain ⟨b, hb, hget⟩ := Option.bind_eq_some_iff.mp hp
    simp [touch, setEntry, persistEntry, setRecord, record, BackendAnswers.ok, hb, HashMap.set]

/-- The boot and a read-through `get`, on an instance with nothing cached, agree
on a session: one restores what the other returns, and neither deletes a record
that the other serves. -/
structure Agree (st : SessionStore T) (clock : Clock) (s : String) : Prop where
  data : ((st.loadPersisted clock true fun _ => .ok).sessions.get? s).map (·.data) =
    (st.get clock .ok s).2
  boot : (st.loadPersisted clock true fun _ => .ok).record s = none →
    (st.get clock .ok s).2 = none
  read : (st.get clock .ok s).1.record s = none →
    (st.loadPersisted clock true fun _ => .ok).sessions.get? s = none

/-- The two decoders take a record with a deadline alike. -/
theorem expired_iff_remaining (h : p.expiresAtUnixMs ≠ none) (clock : Clock) :
    p.expired clock = true ↔ p.remaining clock = 0 := by
  unfold PersistedSession.expired PersistedSession.remaining
  cases hd : p.expiresAtUnixMs with
  | none => exact absurd hd h
  | some deadline => exact decide_eq_true_iff

/-- They differ on a record without one that has no legacy time either. -/
theorem decides_alike_iff (p : PersistedSession T) (clock : Clock) :
    (p.expired clock = true ↔ p.remaining clock = 0) ↔
      p.expiresAtUnixMs ≠ none ∨ p.remainingTtlSecs.getD 0 ≠ 0 := by
  by_cases hd : p.expiresAtUnixMs = none
  · unfold PersistedSession.expired PersistedSession.remaining
    simp only [hd, Duration.fromSecs, ne_eq, not_true_eq_false, false_or, Bool.false_eq_true,
      false_iff]
    omega
  · simp [expired_iff_remaining hd, hd]

/-- **When boot and read-through agree**: on a record with a deadline always, on
one without when the legacy format gives it some time. -/
theorem boot_agrees_iff (hempty : st.sessions.get? s = none) (hp : st.record s = some p)
    (clock : Clock) :
    Agree st clock s ↔ p.expiresAtUnixMs ≠ none ∨ p.remainingTtlSecs.getD 0 ≠ 0 := by
  obtain ⟨b, hb, -⟩ := Option.bind_eq_some_iff.mp hp
  obtain ⟨hmemory, hrecord⟩ := loadPersisted_ok hb clock s
  have hrestore : st.restorable clock s = st.restoredEntry clock p := by
    rw [restorable, hp, Option.bind_some]
  rw [hempty, Option.or_none, hrestore] at hmemory
  rw [hrestore, hp] at hrecord
  rw [← decides_alike_iff p clock]
  by_cases hdead : p.remaining clock = 0
  · -- The boot deletes the record.
    have hnone : st.restoredEntry clock p = none := by
      unfold restoredEntry
      rw [if_pos hdead]
    rw [hnone] at hmemory hrecord
    rw [if_pos rfl] at hrecord
    rcases get_ok hp hempty clock with ⟨hexp, hget⟩ | ⟨hexp, hget, -⟩
    · refine ⟨fun _ => by simp [hexp, hdead], fun _ => ⟨?_, fun _ => hget, fun _ => hmemory⟩⟩
      rw [hmemory, hget]
      rfl
    · constructor
      · intro hagree
        have hserved := hagree.boot hrecord
        rw [hget] at hserved
        cases hserved
      · intro halike
        rw [halike.mpr hdead] at hexp
        cases hexp
  · -- The boot restores it.
    obtain ⟨entry, hentry, hdata⟩ : ∃ entry, st.restoredEntry clock p = some entry ∧
        entry.data = p.data := by
      unfold restoredEntry
      rw [if_neg hdead]
      exact ⟨_, rfl, rfl⟩
    rw [hentry] at hmemory hrecord
    rw [if_neg (Option.some_ne_none entry)] at hrecord
    rcases get_ok hp hempty clock with ⟨hexp, hget⟩ | ⟨hexp, hget, hkept⟩
    · constructor
      · intro hagree
        have hserved := hagree.data
        rw [hmemory, hget] at hserved
        cases hserved
      · intro halike
        exact absurd (halike.mp hexp) hdead
    · refine ⟨fun _ => by simp [hexp, hdead], fun _ => ⟨?_, ?_, ?_⟩⟩
      · rw [hmemory, hget, Option.map_some, hdata]
      · intro hgone
        rw [hrecord] at hgone
        cases hgone
      · intro hgone
        exact absurd hgone hkept

/-- A store over one persisted session. -/
def overRecord (p : PersistedSession Nat) : SessionStore Nat :=
  new DEFAULT_SESSION_TTL (some (HashMap.empty.insert "session" p))

theorem boot_agrees_on_deadline :
    Agree (overRecord ⟨7, some 60000, none⟩) ⟨0, 0⟩ "session" :=
  (boot_agrees_iff rfl (p := ⟨7, some 60000, none⟩) rfl ⟨0, 0⟩).mpr (.inl (by decide))

/-- A record with neither deadline nor legacy time is served by `get` and
deleted by the boot. -/
theorem undated_record_lost_at_boot :
    ¬ ∀ (p : PersistedSession Nat) (clock : Clock), Agree (overRecord p) clock "session" := by
  intro h
  have hserved : ((overRecord ⟨7, none, none⟩).get ⟨0, 0⟩ .ok "session").2 = some 7 := by decide
  have hgone := (h ⟨7, none, none⟩ ⟨0, 0⟩).boot (by decide)
  rw [hserved] at hgone
  cases hgone

end Boot

end McpFramework.SessionStore
