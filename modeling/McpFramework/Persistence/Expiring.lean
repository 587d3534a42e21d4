import McpFramework.Lib.Deadlines
import McpFramework.Persistence.Refinement

/-!
# Persistence — Expiring

What a backend with lifetimes is for: a map with deadlines beside it. An entry
that has expired is still listed by `keys` and gone for everything else, and
stays gone until it is written (`get_run_of_absent`).
-/

namespace McpFramework

open Lib

/-! ## Entries with a lifetime -/

/-- What the backend is for: the in-memory map with deadlines beside it. An
entry that has expired is listed and nothing else. -/
structure ExpiringBackend where
  entries : InMemoryBackend
  deadlines : HashMap (String × String) Nat
  now : Nat

namespace ExpiringBackend

open RedisBackend (expireSecs)

def new : ExpiringBackend := ⟨InMemoryBackend.new, HashMap.empty, 0⟩

def expired (m : ExpiringBackend) (ns key : String) : Bool :=
  Deadline.past m.now (m.deadlines.get? (ns, key))

def get (m : ExpiringBackend) (ns key : String) : Option (List UInt8) :=
  Deadline.read m.now (m.deadlines.get? (ns, key)) (m.entries.get ns key)

def lifetime (m : ExpiringBackend) (ttl : Nat) : Nat := m.now + expireSecs ttl * 1000

def call (m : ExpiringBackend) : Op → ExpiringBackend × Output
  | .get ns key => (m, .value (m.get ns.name key))
  | .set ns key value ttl =>
    ({ m with
        entries := m.entries.set ns.name key value
        deadlines := m.deadlines.set (ns.name, key) (ttl.map m.lifetime) }, .unit)
  | .delete ns key =>
    ({ m with
        entries := m.entries.delete ns.name key
        deadlines := m.deadlines.remove (ns.name, key) }, .unit)
  | .keys ns => (m, .keys (m.entries.live ns))
  | .touch ns key ttl =>
    if (m.get ns.name key).isSome then
      ({ m with deadlines := m.deadlines.insert (ns.name, key) (m.lifetime ttl) }, .touch .Armed)
    else (m, .touch .Missing)

def elapse (m : ExpiringBackend) (ms : Nat) : ExpiringBackend := { m with now := m.now + ms }

/-- The deadline of an entry that has not expired. -/
def deadline (m : ExpiringBackend) (ns key : String) : Option Nat :=
  Deadline.left m.now (m.deadlines.get? (ns, key)) (m.entries.get ns key)

variable {m : ExpiringBackend} {ns key : String}

/-- Operations on the entries are those of the in-memory backend. -/
theorem call_entries (m : ExpiringBackend) (op : Op) :
    (m.call op).1.entries = (m.entries.call op).1 := by
  cases op with
  | touch ns key ttl =>
    simp only [call, apply_ite Prod.fst, apply_ite ExpiringBackend.entries, ite_self]
    rfl
  | _ => rfl

@[simp] theorem now_call (m : ExpiringBackend) (op : Op) : (m.call op).1.now = m.now := by
  cases op with
  | touch ns key ttl =>
    simp only [call, apply_ite Prod.fst, apply_ite ExpiringBackend.now, ite_self]
  | _ => rfl

theorem pair_eq_iff {ns ns' : Namespace} {key key' : String} :
    (ns'.name, key') = (ns.name, key) ↔ ns' = ns ∧ key' = key := by
  rw [Prod.mk.injEq, InMemoryBackend.name_eq_iff]

theorem deadline_of_absent (h : m.get ns key = none) : m.deadline ns key = none :=
  Deadline.left_of_absent h

theorem now_le_lifetime (m : ExpiringBackend) (ttl : Nat) : m.now ≤ m.lifetime ttl :=
  Nat.le_add_right m.now _

theorem get_set (m : ExpiringBackend) (ns : Namespace) (key : String) (v : List UInt8)
    (ttl : Option Nat) (ns' : Namespace) (key' : String) :
    (m.call (.set ns key v ttl)).1.get ns'.name key' =
      if ns' = ns ∧ key' = key then some v else m.get ns'.name key' := by
  show Deadline.read m.now
    ((m.deadlines.set (ns.name, key) (ttl.map m.lifetime)).get? (ns'.name, key'))
    ((m.entries.set ns.name key v).get ns'.name key') = _
  simp only [HashMap.get?_set, InMemoryBackend.get_set, pair_eq_iff, InMemoryBackend.name_eq_iff]
  by_cases hk : ns' = ns ∧ key' = key
  · rw [if_pos hk, if_pos hk, if_pos hk]
    refine Deadline.read_of_not_past (Deadline.not_past_of_le fun d hd => ?_)
    obtain ⟨ttl', -, rfl⟩ := Option.map_eq_some_iff.mp hd
    exact m.now_le_lifetime ttl'
  · rw [if_neg hk, if_neg hk, if_neg hk]
    rfl

theorem deadline_set (m : ExpiringBackend) (ns : Namespace) (key : String) (v : List UInt8)
    (ttl : Option Nat) (ns' : Namespace) (key' : String) :
    (m.call (.set ns key v ttl)).1.deadline ns'.name key' =
      if ns' = ns ∧ key' = key then ttl.map m.lifetime else m.deadline ns'.name key' := by
  have hget := get_set m ns key v ttl ns' key'
  by_cases hk : ns' = ns ∧ key' = key
  · rw [if_pos hk] at hget ⊢
    refine (Deadline.left_of_present hget).trans ?_
    show (m.deadlines.set (ns.name, key) (ttl.map m.lifetime)).get? (ns'.name, key') = _
    rw [HashMap.get?_set, if_pos (pair_eq_iff.mpr hk)]
  · rw [if_neg hk]
    show Deadline.left m.now
      ((m.deadlines.set (ns.name, key) (ttl.map m.lifetime)).get? (ns'.name, key'))
      ((m.entries.set ns.name key v).get ns'.name key') = _
    simp only [HashMap.get?_set, InMemoryBackend.get_set, pair_eq_iff,
      InMemoryBackend.name_eq_iff, hk, if_false]
    rfl

theorem get_delete (m : ExpiringBackend) (ns : Namespace) (key : String) (ns' : Namespace)
    (key' : String) :
    (m.call (.delete ns key)).1.get ns'.name key' =
      if ns' = ns ∧ key' = key then none else m.get ns'.name key' := by
  show Deadline.read m.now ((m.deadlines.remove (ns.name, key)).get? (ns'.name, key'))
    ((m.entries.delete ns.name key).get ns'.name key') = _
  simp only [HashMap.get?_remove, InMemoryBackend.get_delete, pair_eq_iff,
    InMemoryBackend.name_eq_iff]
  by_cases hk : ns' = ns ∧ key' = key
  · simp only [hk, and_self, if_true]
    rfl
  · simp only [hk, if_false]
    rfl

theorem deadline_delete (m : ExpiringBackend) (ns : Namespace) (key : String) (ns' : Namespace)
    (key' : String) :
    (m.call (.delete ns key)).1.deadline ns'.name key' =
      if ns' = ns ∧ key' = key then none else m.deadline ns'.name key' := by
  have hget := get_delete m ns key ns' key'
  by_cases hk : ns' = ns ∧ key' = key
  · rw [if_pos hk] at hget ⊢
    exact deadline_of_absent hget
  · rw [if_neg hk]
    show Deadline.left m.now ((m.deadlines.remove (ns.name, key)).get? (ns'.name, key'))
      ((m.entries.delete ns.name key).get ns'.name key') = _
    simp only [HashMap.get?_remove, InMemoryBackend.get_delete, pair_eq_iff,
      InMemoryBackend.name_eq_iff, hk, if_false]
    rfl

/-- Arming an entry that has not expired changes nothing but its deadline. -/
theorem get_touch (m : ExpiringBackend) (ns : Namespace) (key : String) (ttl : Nat)
    (ns' : Namespace) (key' : String) :
    (m.call (.touch ns key ttl)).1.get ns'.name key' = m.get ns'.name key' := by
  cases hget : m.get ns.name key with
  | none =>
    simp only [call, hget]
    rfl
  | some v =>
    simp only [call, hget, Option.isSome_some, if_true]
    show Deadline.read m.now
      ((m.deadlines.insert (ns.name, key) (m.lifetime ttl)).get? (ns'.name, key'))
      (m.entries.get ns'.name key') = _
    simp only [HashMap.get?_insert, pair_eq_iff]
    by_cases hk : ns' = ns ∧ key' = key
    · rw [if_pos hk, hk.1, hk.2, hget, Deadline.eq_of_read hget]
      refine Deadline.read_of_not_past (Deadline.not_past_of_le fun d hd => ?_)
      injection hd with hd
      rw [← hd]
      exact m.now_le_lifetime ttl
    · rw [if_neg hk]
      rfl

theorem deadline_touch (m : ExpiringBackend) (ns : Namespace) (key : String) (ttl : Nat)
    (ns' : Namespace) (key' : String) :
    (m.call (.touch ns key ttl)).1.deadline ns'.name key' =
      if (ns' = ns ∧ key' = key) ∧ (m.get ns.name key).isSome = true then some (m.lifetime ttl)
      else m.deadline ns'.name key' := by
  have hkept := get_touch m ns key ttl ns' key'
  cases hget : m.get ns.name key with
  | none =>
    simp only [call, hget]
    simp
  | some v =>
    simp only [call, hget, Option.isSome_some, if_true, and_true] at hkept ⊢
    by_cases hk : ns' = ns ∧ key' = key
    · rw [if_pos hk]
      rw [hk.1, hk.2, hget] at hkept
      rw [hk.1, hk.2]
      refine (Deadline.left_of_present hkept).trans ?_
      exact HashMap.get?_insert_self _ _ _
    · rw [if_neg hk]
      show Deadline.left m.now
        ((m.deadlines.insert (ns.name, key) (m.lifetime ttl)).get? (ns'.name, key'))
        (m.entries.get ns'.name key') = _
      simp only [HashMap.get?_insert, pair_eq_iff, hk, if_false]
      rfl

theorem elapse_get (m : ExpiringBackend) (ms : Nat) (ns key : String) :
    (m.elapse ms).get ns key =
      Deadline.read (m.now + ms) (m.deadline ns key) (m.get ns key) :=
  Deadline.read_later (Nat.le_add_right m.now ms) _ _

theorem elapse_deadline (m : ExpiringBackend) (ms : Nat) (ns key : String) :
    (m.elapse ms).deadline ns key =
      Deadline.left (m.now + ms) (m.deadline ns key) (m.get ns key) :=
  Deadline.left_later (Nat.le_add_right m.now ms) _ _

/-- What has not expired is an entry. -/
theorem entry_of_get {v : List UInt8} (h : m.get ns key = some v) :
    m.entries.get ns key = some v :=
  Deadline.eq_of_read h

end ExpiringBackend

/-! ## Histories -/

/-- A call, or time passing. -/
inductive Event where
  | call (op : Op)
  | elapse (ms : Nat)
def ExpiringBackend.run (m : ExpiringBackend) : List Event → ExpiringBackend
  | [] => m
  | .call op :: events => (m.call op).1.run events
  | .elapse ms :: events => (m.elapse ms).run events

/-- The in-memory backend has no clock. -/
def InMemoryBackend.run (m : InMemoryBackend) : List Event → InMemoryBackend
  | [] => m
  | .call op :: events => (m.call op).1.run events
  | .elapse _ :: events => m.run events

namespace ExpiringBackend

variable {m : ExpiringBackend} {events : List Event}

theorem run_append (m : ExpiringBackend) (events later : List Event) :
    m.run (events ++ later) = (m.run events).run later := by
  induction events generalizing m with
  | nil => rfl
  | cons event events ih =>
    cases event with
    | call op => exact ih (m.call op).1
    | elapse ms => exact ih (m.elapse ms)

/-- Lifetimes leave no trace in what is listed. -/
theorem run_entries (m : ExpiringBackend) (events : List Event) :
    (m.run events).entries = m.entries.run events := by
  induction events generalizing m with
  | nil => rfl
  | cons event events ih =>
    cases event with
    | call op =>
      show ((m.call op).1.run events).entries = (m.entries.call op).1.run events
      rw [ih, call_entries]
    | elapse ms => exact ih (m.elapse ms)

/-- The call is about one entry, which has expired. -/
def lost (m : ExpiringBackend) : Op → Bool
  | .get ns key => m.expired ns.name key
  | .touch ns key _ => m.expired ns.name key
  | _ => false

/-- What is answered for an entry that is not there. -/
def gone : Op → Output → Output
  | .get _ _, _ => .value none
  | .touch _ _ _, _ => .touch .Missing
  | _, out => out

theorem touch_output (m : ExpiringBackend) (ns : Namespace) (key : String) (ttl : Nat) :
    (m.call (.touch ns key ttl)).2 =
      .touch (if (m.get ns.name key).isSome then .Armed else .Missing) := by
  simp only [call]
  cases (m.get ns.name key).isSome <;> rfl

theorem call_output (m : ExpiringBackend) (op : Op) :
    (m.call op).2 =
      if m.lost op then gone op (m.entries.call op).2 else (m.entries.call op).2 := by
  cases op with
  | get ns key =>
    show Output.value (m.get ns.name key) = _
    cases hexpired : m.expired ns.name key with
    | true =>
      rw [get, Deadline.read_of_past hexpired]
      simp [lost, gone, hexpired]
    | false =>
      rw [get, Deadline.read_of_not_past hexpired]
      simp [lost, InMemoryBackend.call, hexpired]
  | touch ns key ttl =>
    rw [touch_output]
    cases hexpired : m.expired ns.name key with
    | true =>
      rw [get, Deadline.read_of_past hexpired]
      simp [lost, gone, hexpired]
    | false =>
      rw [get, Deadline.read_of_not_past hexpired]
      simp only [lost, hexpired, Bool.false_eq_true, if_false]
      rfl
  | _ => rfl

/-- An entry was there, or was written with its value. -/
theorem set_of_entry {ns : Namespace} {key : String} {v : List UInt8}
    (h : (m.run events).entries.get ns.name key = some v) :
    m.entries.get ns.name key = some v ∨ ∃ ttl, .call (.set ns key v ttl) ∈ events := by
  induction events generalizing m with
  | nil => exact Or.inl h
  | cons event events ih =>
    cases event with
    | elapse ms =>
      rcases ih (m := m.elapse ms) h with hentry | ⟨ttl, hmem⟩
      · exact Or.inl hentry
      · exact Or.inr ⟨ttl, List.mem_cons_of_mem _ hmem⟩
    | call op =>
      rcases ih (m := (m.call op).1) h with hentry | ⟨ttl, hmem⟩
      · rw [call_entries] at hentry
        cases op with
        | set ns' key' w ttl =>
          simp only [InMemoryBackend.call, InMemoryBackend.get_set,
            InMemoryBackend.name_eq_iff] at hentry
          split at hentry
          · next hk =>
            injection hentry with hentry
            rw [hk.1, hk.2, ← hentry]
            exact Or.inr ⟨ttl, List.mem_cons_self⟩
          · exact Or.inl hentry
        | delete ns' key' =>
          simp only [InMemoryBackend.call, InMemoryBackend.get_delete] at hentry
          split at hentry
          · cases hentry
          · exact Or.inl hentry
        | _ => exact Or.inl hentry
      · exact Or.inr ⟨ttl, List.mem_cons_of_mem _ hmem⟩

/-- The call does not write the entry. -/
def Spares (ns : Namespace) (key : String) : Event → Prop
  | .call (.set ns' key' _ _) => ¬ (ns = ns' ∧ key = key')
  | _ => True

/-- An entry that is not there stays away until it is written. -/
theorem get_run_of_absent {ns : Namespace} {key : String} (h : m.get ns.name key = none)
    (hspares : ∀ event ∈ events, Spares ns key event) :
    (m.run events).get ns.name key = none := by
  induction events generalizing m with
  | nil => exact h
  | cons event events ih =>
    have hrest : ∀ event ∈ events, Spares ns key event :=
      fun event hmem => hspares event (List.mem_cons_of_mem _ hmem)
    have hhead := hspares event List.mem_cons_self
    cases event with
    | elapse ms =>
      refine ih (m := m.elapse ms) ?_ hrest
      rw [elapse_get, h]
      exact Deadline.read_none _ _
    | call op =>
      refine ih (m := (m.call op).1) ?_ hrest
      cases op with
      | get ns' key' => exact h
      | keys ns' => exact h
      | set ns' key' v ttl =>
        rw [get_set, if_neg hhead]
        exact h
      | delete ns' key' => rw [get_delete, h, ite_self]
      | touch ns' key' ttl => rw [get_touch, h]

/-- The call does not delete the entry, and arms it for `ttl` where it writes or
arms it. -/
def Keeps (ns : Namespace) (key : String) (ttl : Nat) : Event → Prop
  | .call (.set ns' key' _ ttl') => ns = ns' ∧ key = key' → ttl' = some ttl
  | .call (.touch ns' key' ttl') => ns = ns' ∧ key = key' → ttl' = ttl
  | .call (.delete ns' key') => ¬ (ns = ns' ∧ key = key')
  | _ => True

/-- How much time passes. -/
def elapsed : List Event → Nat
  | [] => 0
  | .elapse ms :: events => ms + elapsed events
  | .call _ :: events => elapsed events

/-- An entry that nothing deletes is there for as long as it is armed for. -/
theorem get_run_of_armed {ns : Namespace} {key : String} {ttl bound : Nat}
    (h : (m.get ns.name key).isSome = true)
    (hdeadline : ∀ d, m.deadline ns.name key = some d → bound ≤ d)
    (hlifetime : bound ≤ m.lifetime ttl) (hkeeps : ∀ event ∈ events, Keeps ns key ttl event)
    (hintime : m.now + elapsed events ≤ bound) :
    ((m.run events).get ns.name key).isSome = true := by
  induction events generalizing m with
  | nil => exact h
  | cons event events ih =>
    have hrest : ∀ event ∈ events, Keeps ns key ttl event :=
      fun event hmem => hkeeps event (List.mem_cons_of_mem _ hmem)
    have hhead := hkeeps event List.mem_cons_self
    cases event with
    | elapse ms =>
      have hlater : m.now + ms + elapsed events ≤ bound := by
        simp only [elapsed] at hintime
        omega
      have hstays : Deadline.past (m.now + ms) (m.deadline ns.name key) = false := by
        refine Deadline.not_past_of_le fun d hd => ?_
        have hle := hdeadline d hd
        omega
      have hget : (m.elapse ms).get ns.name key = m.get ns.name key := by
        rw [elapse_get, Deadline.read_of_not_past hstays]
      refine ih (m := m.elapse ms) ?_ (fun d hd => ?_) ?_ hrest hlater
      · rw [hget]
        exact h
      · refine hdeadline d ?_
        obtain ⟨v, hv⟩ := Option.isSome_iff_exists.mp h
        rw [elapse_deadline, hv] at hd
        unfold Deadline.left at hd
        split at hd
        · exact hd
        · cases hd
      · show bound ≤ m.now + ms + _
        unfold lifetime at hlifetime
        omega
    | call op =>
      have hlater : m.now + elapsed events ≤ bound := hintime
      have hnow : (m.call op).1.lifetime ttl = m.lifetime ttl := by
        rw [lifetime, now_call]
        rfl
      have hcall : ((m.call op).1.get ns.name key).isSome = true ∧
          ∀ d, (m.call op).1.deadline ns.name key = some d → bound ≤ d := by
        cases op with
        | get ns' key' => exact ⟨h, hdeadline⟩
        | keys ns' => exact ⟨h, hdeadline⟩
        | set ns' key' v ttl' =>
          rw [get_set, deadline_set]
          by_cases hk : ns = ns' ∧ key = key'
          · rw [if_pos hk, if_pos hk, hhead hk]
            refine ⟨rfl, fun d hd => ?_⟩
            injection hd with hd
            rw [← hd]
            exact hlifetime
          · rw [if_neg hk, if_neg hk]
            exact ⟨h, hdeadline⟩
        | delete ns' key' =>
          rw [get_delete, deadline_delete, if_neg hhead, if_neg hhead]
          exact ⟨h, hdeadline⟩
        | touch ns' key' ttl' =>
          rw [get_touch, deadline_touch]
          refine ⟨h, fun d hd => ?_⟩
          split at hd
          · next hk =>
            injection hd with hd
            rw [← hd, hhead hk.1]
            exact hlifetime
          · exact hdeadline d hd
      refine ih hcall.1 hcall.2 ?_ hrest ?_
      · rw [hnow]
        exact hlifetime
      · rw [now_call]
        exact hlater

end ExpiringBackend

end McpFramework
