import McpFramework.Transport.SessionPersistence

/-!
# Transport — SessionRecovery

What the moments within a load say of whole runs: a deleted session stays unknown
(`deleted_session_stays_unknown`), and a session recovered on one instance can be
recovered on the next (`recovered_session_stays_recoverable`).
-/

namespace McpFramework.TransportSessions

open Lib

variable {S : Type*} {store : TransportSessionStore} {codec : StateBytes S}

/-- What is after a delete and is there has been stored since. -/
theorem stored_since {before pre post : List Event} {id : String}
    (hthere : ¬ Absent id before)
    (hsplit : before = pre ++ .call (.delete NS_TRANSPORT_SESSIONS id) :: post) :
    ∃ bytes ttl, .call (.set NS_TRANSPORT_SESSIONS id bytes ttl) ∈ post := by
  by_contra hnone
  refine hthere ?_
  have hdeleted : ((after pre).call (.delete NS_TRANSPORT_SESSIONS id)).1.get
      NS_TRANSPORT_SESSIONS.name id = none := by
    rw [ExpiringBackend.get_delete, if_pos ⟨rfl, rfl⟩]
  have hrun : after before =
      ((after pre).call (.delete NS_TRANSPORT_SESSIONS id)).1.run post := by
    rw [hsplit, after, ExpiringBackend.run_append]
    rfl
  rw [Absent, hrun]
  refine ExpiringBackend.get_run_of_absent hdeleted fun event hmem => ?_
  cases event with
  | elapse ms => trivial
  | call op =>
    cases op with
    | set ns key bytes ttl =>
      intro hsame
      rw [← hsame.1, ← hsame.2] at hmem
      exact hnone ⟨bytes, ttl, hmem⟩
    | _ => trivial

theorem not_absent_of_reads {before : List Event} {id : String} {state : S}
    (h : Reads codec id state before) : ¬ Absent id before := by
  intro habsent
  rw [Reads, habsent] at h
  cases h

/-- **A deleted session stays unknown.** A load that answers with a state answers
with one that was stored under its id; and at a moment within the load, which
is that of its re-arming where there is one, every delete of the session that
had taken effect was followed by another store: a delete that lands between the
read and the re-arming wins. -/
theorem deleted_session_stays_unknown {st : State S}
    (hr : (system store codec).Reach (fun _ _ => True) init st) {t : Nat} {id : String}
    {state : S} (hrequest : (st.tasks t).request = .load id)
    (hpc : (st.tasks t).pc = .done (.state (some state))) :
    (∃ u, (st.tasks u).request = .store id state ∧ begun (st.tasks u).pc = true) ∧
      ∃ before rest, st.history = before ++ rest ∧ (st.tasks t).start ≤ before.length ∧
        (store.touches = true → ∃ rest',
          rest = .call (.touch NS_TRANSPORT_SESSIONS id store.ttl) :: rest') ∧
        ∀ pre post, before = pre ++ .call (.delete NS_TRANSPORT_SESSIONS id) :: post →
          ∃ bytes ttl, .call (.set NS_TRANSPORT_SESSIONS id bytes ttl) ∈ post := by
  have h := inv_reach hr
  have hout := h.outcome t
  simp only [Outcome, hrequest, hpc] at hout
  have hstored : ∀ before, before <+: st.history → Reads codec id state before →
      ∃ u, (st.tasks u).request = .store id state ∧ begun (st.tasks u).pc = true := by
    intro before hbefore hread
    obtain ⟨bytes, hget, hstate⟩ := Option.bind_eq_some_iff.mp hread
    obtain ⟨u, stored, hstore, hbegun, hbytes⟩ := h.written hbefore hget
    have hsame := codec.roundTrip stored bytes hbytes
    rw [hstate] at hsame
    injection hsame with hsame
    rw [hsame]
    exact ⟨u, hstore, hbegun⟩
  split at hout
  · obtain ⟨before, rest, hhistory, hthere, mid, rest', hmid, hstart, hread⟩ := hout
    refine ⟨hstored mid ?_ hread, before, _, hhistory, ?_, fun _ => ⟨rest, rfl⟩, ?_⟩
    · rw [hhistory, hmid, List.append_assoc]
      exact List.prefix_append _ _
    · rw [hmid, List.length_append]
      omega
    · intro pre post hsplit
      exact stored_since hthere hsplit
  · next htouches =>
    obtain ⟨before, rest, hhistory, hstart, hread⟩ := hout
    refine ⟨hstored before ⟨rest, hhistory.symm⟩ hread, before, rest, hhistory, hstart,
      fun hyes => absurd hyes htouches, fun pre post hsplit => ?_⟩
    exact stored_since (not_absent_of_reads hread) hsplit

/-- Bytes are their own state. -/
def plainBytes : StateBytes (List UInt8) := ⟨some, some, fun _ _ h => h.symm⟩

/-- What a finished load has found. -/
def found : Task S → Option (String × S)
  | ⟨.load id, .done (.state (some state)), _, _⟩ => some (id, state)
  | _ => none

theorem found_iff {task : Task S} {id : String} {state : S} :
    found task = some (id, state) ↔
      task.request = .load id ∧ task.pc = .done (.state (some state)) := by
  constructor
  · intro h
    unfold found at h
    split at h
    · injection h with h
      injection h with hid hstate
      rw [hid, hstate]
      exact ⟨rfl, rfl⟩
    · cases h
  · obtain ⟨request, pc, start, clean⟩ := task
    rintro ⟨rfl, rfl⟩
    rfl

/-- A session is stored, deleted, stored again and loaded by two instances, the
second time close to the end of the lifetime that the first load has armed. -/
def recovering : List (Label (List UInt8)) :=
  [.call 0 (.store "s" [7]), .run 0 .answered, .call 1 (.delete "s"), .run 1 .answered,
    .call 2 (.store "s" [8]), .run 2 .answered, .elapse 50000, .call 3 (.load "s"),
    .run 3 .answered, .run 3 .answered, .elapse 59000, .call 4 (.load "s"), .run 4 .answered,
    .run 4 .answered]

theorem recovering_reaches :
    ∃ st, (system ⟨60000000000, true⟩ plainBytes).Reach (fun _ _ => True) init st ∧
      (found (st.tasks 3) = some ("s", [8]) ∧ found (st.tasks 4) = some ("s", [8])) ∧
        (st.tasks 4).clean = true := by
  obtain ⟨st, hr, hp⟩ := System.exists_reach_of_run
    (S := system ⟨60000000000, true⟩ plainBytes) (G := fun _ _ => True) (s := init)
    (w := recovering)
    (p := fun st => decide ((found (st.tasks 3) = some ("s", [8]) ∧
      found (st.tasks 4) = some ("s", [8])) ∧ (st.tasks 4).clean = true)) (by decide)
  exact ⟨st, hr, of_decide_eq_true hp⟩

theorem second_store_is_loaded :
    ∃ st : State (List UInt8),
      (∃ u, (st.tasks u).request = .store "s" [8] ∧ begun (st.tasks u).pc = true) ∧
      ∃ before rest, st.history = before ++ rest ∧ (st.tasks 3).start ≤ before.length ∧
        (true = true → ∃ rest',
          rest = .call (.touch NS_TRANSPORT_SESSIONS "s" 60000000000) :: rest') ∧
        ∀ pre post, before = pre ++ .call (.delete NS_TRANSPORT_SESSIONS "s") :: post →
          ∃ bytes ttl, .call (.set NS_TRANSPORT_SESSIONS "s" bytes ttl) ∈ post := by
  obtain ⟨st, hr, ⟨h3, -⟩, -⟩ := recovering_reaches
  obtain ⟨hrequest, hpc⟩ := found_iff.mp h3
  exact ⟨st, deleted_session_stays_unknown hr hrequest hpc⟩

theorem elapsed_append (events later : List Event) :
    ExpiringBackend.elapsed (events ++ later) =
      ExpiringBackend.elapsed events + ExpiringBackend.elapsed later := by
  induction events with
  | nil => simp [ExpiringBackend.elapsed]
  | cons event events ih =>
    cases event with
    | call op => exact ih
    | elapse ms =>
      simp only [List.cons_append, ExpiringBackend.elapsed, ih]
      omega

/-- The entry is there at every moment after its re-arming. -/
theorem Inv.there_after {st : State S} (h : Inv store codec st) {before rest now later : List Event}
    {id : String} (hthere : ¬ Absent id before)
    (hhistory : st.history = before ++ .call (.touch NS_TRANSPORT_SESSIONS id store.ttl) :: rest)
    (hnow : st.history = now ++ later) (hlater : before.length < now.length)
    (hkept : ∀ event ∈ rest, event ≠ .call (.delete NS_TRANSPORT_SESSIONS id))
    (hintime : ExpiringBackend.elapsed rest ≤ RedisBackend.expireSecs store.ttl * 1000) :
    ¬ Absent id now := by
  have hthere' : ((after before).get NS_TRANSPORT_SESSIONS.name id).isSome = true := by
    cases hget : (after before).get NS_TRANSPORT_SESSIONS.name id with
    | none => exact absurd hget hthere
    | some bytes => rfl
  have hprefix : before ++ [.call (.touch NS_TRANSPORT_SESSIONS id store.ttl)] <+: now := by
    have harming : before ++ [.call (.touch NS_TRANSPORT_SESSIONS id store.ttl)] <+: st.history :=
      ⟨rest, by rw [hhistory, List.append_assoc]; rfl⟩
    have hnow' : now <+: st.history := ⟨later, hnow.symm⟩
    refine List.prefix_of_prefix_length_le harming hnow' ?_
    rw [List.length_append]
    exact hlater
  obtain ⟨since, rfl⟩ := hprefix
  have hrest : rest = since ++ later := by
    rw [hhistory, List.append_assoc, List.append_assoc] at hnow
    simpa using hnow
  have hrun : after (before ++ [.call (.touch NS_TRANSPORT_SESSIONS id store.ttl)] ++ since) =
      ((after before).call (.touch NS_TRANSPORT_SESSIONS id store.ttl)).1.run since := by
    rw [after, ExpiringBackend.run_append, ExpiringBackend.run_append]
    rfl
  intro habsent
  have hpresent : (((after before).call (.touch NS_TRANSPORT_SESSIONS id store.ttl)).1.get
      NS_TRANSPORT_SESSIONS.name id).isSome = true := by
    rw [ExpiringBackend.get_touch]
    exact hthere'
  have hdeadline : ∀ d,
      ((after before).call (.touch NS_TRANSPORT_SESSIONS id store.ttl)).1.deadline
        NS_TRANSPORT_SESSIONS.name id = some d → (after before).lifetime store.ttl ≤ d := by
    intro d hd
    rw [ExpiringBackend.deadline_touch, if_pos ⟨⟨rfl, rfl⟩, hthere'⟩] at hd
    injection hd with hd
    exact Nat.le_of_eq hd
  have hlifetime : (after before).lifetime store.ttl ≤
      ((after before).call (.touch NS_TRANSPORT_SESSIONS id store.ttl)).1.lifetime store.ttl := by
    unfold ExpiringBackend.lifetime
    rw [ExpiringBackend.now_call]
  have hkeeps : ∀ event ∈ since,
      ExpiringBackend.Keeps NS_TRANSPORT_SESSIONS id store.ttl event := by
    intro event hmem
    have hinrest : event ∈ rest := by
      rw [hrest]
      exact List.mem_append_left _ hmem
    have hwrites := h.writes event (by rw [hhistory]; simp [hinrest])
    cases event with
    | elapse ms => trivial
    | call op =>
      cases op with
      | set ns key bytes ttl => exact fun hsame => (hwrites hsame.1.symm).1
      | touch ns key ttl => exact fun hsame => hwrites hsame.1.symm
      | delete ns key =>
        intro hsame
        refine hkept _ hinrest ?_
        rw [← hsame.1, ← hsame.2]
      | _ => trivial
  have hstays := ExpiringBackend.get_run_of_armed hpresent hdeadline hlifetime hkeeps (by
    rw [ExpiringBackend.now_call, ExpiringBackend.lifetime]
    rw [hrest, elapsed_append] at hintime
    omega)
  rw [Absent, hrun] at habsent
  rw [habsent] at hstays
  cases hstays

/-- **A recovered session stays recoverable.** A load that answers with a state has
re-armed the entry; a load by any instance that starts after that, all of whose
calls of the backend are answered, answers with a state too, as long as nobody
deletes the session and no more time passes than the entry is armed for. -/
theorem recovered_session_stays_recoverable {st : State S} (htouches : store.touches = true)
    (hr : (system store codec).Reach (fun _ _ => True) init st) {t u : Nat} {id : String}
    {state : S} {answer : Answer S} (hrequest : (st.tasks t).request = .load id)
    (hpc : (st.tasks t).pc = .done (.state (some state)))
    (hrequest' : (st.tasks u).request = .load id) (hpc' : (st.tasks u).pc = .done answer)
    (hclean : (st.tasks u).clean = true) :
    ∃ before rest,
      st.history = before ++ .call (.touch NS_TRANSPORT_SESSIONS id store.ttl) :: rest ∧
      (st.tasks t).start ≤ before.length ∧
      (before.length < (st.tasks u).start →
        (∀ event ∈ rest, event ≠ .call (.delete NS_TRANSPORT_SESSIONS id)) →
        ExpiringBackend.elapsed rest ≤ RedisBackend.expireSecs store.ttl * 1000 →
        ∃ state', answer = .state (some state')) := by
  have h := inv_reach hr
  have hout := h.outcome t
  simp only [Outcome, hrequest, hpc, htouches, if_true] at hout
  obtain ⟨before, rest, hhistory, hthere, mid, rest', hmid, hstart, -⟩ := hout
  refine ⟨before, rest, hhistory, ?_, fun hlater hkept hintime => ?_⟩
  · rw [hmid, List.length_append]
    omega
  have hout' := h.outcome u
  cases answer with
  | done => simp only [Outcome, hrequest', hpc'] at hout'
  | error =>
    simp only [Outcome, hrequest', hpc', hclean] at hout'
    cases hout'
  | state answered =>
    cases answered with
    | some state' => exact ⟨state', rfl⟩
    | none =>
      simp only [Outcome, hrequest', hpc'] at hout'
      obtain ⟨now, later, hnow, hstart', habsent⟩ := hout' hclean
      exact absurd habsent (h.there_after hthere hhistory hnow (by omega) hkept hintime)

theorem recovering_stays_recoverable :
    ∃ (st : State (List UInt8)) (before rest : List Event),
      st.history = before ++ .call (.touch NS_TRANSPORT_SESSIONS "s" 60000000000) :: rest ∧
      (st.tasks 3).start ≤ before.length ∧
      (before.length < (st.tasks 4).start →
        (∀ event ∈ rest, event ≠ .call (.delete NS_TRANSPORT_SESSIONS "s")) →
        ExpiringBackend.elapsed rest ≤ RedisBackend.expireSecs 60000000000 * 1000 →
        ∃ state', (Answer.state (some [8]) : Answer (List UInt8)) = .state (some state')) := by
  obtain ⟨st, hr, ⟨h3, h4⟩, hclean⟩ := recovering_reaches
  obtain ⟨hrequest, hpc⟩ := found_iff.mp h3
  obtain ⟨hrequest', hpc'⟩ := found_iff.mp h4
  exact ⟨st, recovered_session_stays_recoverable rfl hr hrequest hpc hrequest' hpc' hclean⟩

end McpFramework.TransportSessions
