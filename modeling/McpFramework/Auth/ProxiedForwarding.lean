import McpFramework.Auth.ProxiedDelivery
import McpFramework.Auth.ProxyWire

/-!
# Auth — ProxiedForwarding

Whose authorization a callback forwards, in any interleaving: no order of the
steps is asked for, so a response may be sent twice or late, but what is sent for
a server state is always made from the authorization that was parked under it.

The copies of an authorization are followed from where it is parked: the parking
instance's memory, the backend, and the tasks that carry it from one section to
the next.
-/

namespace McpFramework.ProxiedProtocol

open Lib


section Traced

variable {parses : String → Bool} {st st' : State} {t : Nat} {pc : Pc} {l : Label}
  {s : String} {auth : ProxiedAuthorization} {query : CallbackQuery}

/-- The authorization parked under a server state. -/
def State.origin (st : State) (s : String) : Option ProxiedAuthorization :=
  (st.parked s).map (·.1)

/-- The authorization a task has taken or put somewhere, and its server state. -/
def Pc.carries : Pc → Option (String × ProxiedAuthorization)
  | .persist s auth => some (s, auth)
  | .dropLocal query auth _ => some (query.state, auth)
  | .dropBackend query auth => some (query.state, auth)
  | _ => none

/-- The server state a task is about to park something under. -/
def Pc.toPark : Pc → Option String
  | .park s _ => some s
  | _ => none

/-- A response and the authorization and the callback it was made from. -/
def SentFor (parses : String → Bool) (origin : String → Option ProxiedAuthorization)
    (f : Forwarded) : Prop :=
  ∃ auth query, origin f.serverState = some auth ∧ query.state = f.serverState ∧
    forwardProxiedCallback parses auth query = .ok f.location

structure Traced (parses : String → Bool) (st : State) : Prop where
  memory : ∀ i s e, (st.proxiedAuths i).get? s = some e → st.origin s = some e.1
  backend : ∀ s e, st.backend.get? s = some e → st.origin s = some e.1
  carries : ∀ t s auth, (st.tasks t).pc.carries = some (s, auth) → st.origin s = some auth
  minted : ∀ s, st.origin s ≠ none → s ∈ st.minted
  toPark : ∀ t s, (st.tasks t).pc.toPark = some s →
    s ∈ st.minted ∧ st.origin s = none ∧ ∀ u, (st.tasks u).pc.toPark = some s → u = t
  sent : ∀ f ∈ st.forwarded, SentFor parses st.origin f

theorem Traced.init : Traced parses init where
  memory := fun _ _ _ h => by simp [ProxiedProtocol.init] at h
  backend := fun _ _ h => by simp [ProxiedProtocol.init] at h
  carries := fun _ _ _ h => by cases h
  minted := fun _ h => absurd rfl h
  toPark := fun _ _ h => by cases h
  sent := fun _ h => by cases h

/-! ### One change at a time -/

/-- A task moves; it parks nothing any more, and what it carries is the parked
one. -/
theorem Traced.setTask (h : Traced parses st) {task : Task} (hpark : task.pc.toPark = none)
    (hcarries : ∀ s auth, task.pc.carries = some (s, auth) → st.origin s = some auth) :
    Traced parses { st with tasks := Function.update st.tasks t task } := by
  have hold : ∀ u s, (Function.update st.tasks t task u).pc.toPark = some s →
      (st.tasks u).pc.toPark = some s := by
    intro u s hu
    by_cases hut : u = t
    · subst hut
      rw [Function.update_self, hpark] at hu
      cases hu
    · rwa [Function.update_of_ne hut] at hu
  refine ⟨h.memory, h.backend, ?_, h.minted, ?_, h.sent⟩
  · exact (forall_update_iff (P := fun _ (task : Task) =>
      ∀ s auth, task.pc.carries = some (s, auth) → st.origin s = some auth)).mpr
      ⟨hcarries, fun u _ => h.carries u⟩
  · intro u s hu
    obtain ⟨hminted, hnone, hunique⟩ := h.toPark u s (hold u s hu)
    exact ⟨hminted, hnone, fun w hw => hunique w (hold w s hw)⟩

theorem Traced.goto (h : Traced parses st) (hpark : pc.toPark = none)
    (hcarries : ∀ s auth, pc.carries = some (s, auth) → st.origin s = some auth) :
    Traced parses (st.goto t pc) := by
  have htask : ({ st.tasks t with pc := pc } : Task).pc.toPark = none := hpark
  exact h.setTask htask hcarries

/-- An instance keeps of its memory what the parked ones are. -/
theorem Traced.setProxied (h : Traced parses st)
    {proxied : HashMap String (ProxiedAuthorization × Nat)}
    (hmem : ∀ s e, proxied.get? s = some e → st.origin s = some e.1) :
    Traced parses (st.setProxied t proxied) :=
  ⟨(forall_update_iff (P := fun _ (m : HashMap String (ProxiedAuthorization × Nat)) =>
      ∀ s e, m.get? s = some e → st.origin s = some e.1)).mpr ⟨hmem, fun i _ => h.memory i⟩,
    h.backend, h.carries, h.minted, h.toPark, h.sent⟩

theorem Traced.delete (h : Traced parses st) (s : String) : Traced parses (st.delete s) := by
  refine ⟨h.memory, fun s' e he => ?_, h.carries, h.minted, h.toPark, h.sent⟩
  rw [State.delete, HashMap.get?_remove] at he
  split at he
  · cases he
  · exact h.backend s' e he

/-- What callbacks have found is no part of it. -/
theorem Traced.held (h : Traced parses st) (held : List Held) :
    Traced parses { st with held := held } :=
  ⟨h.memory, h.backend, h.carries, h.minted, h.toPark, h.sent⟩

/-- A callback ends with the authorization it carries. -/
theorem Traced.forward (h : Traced parses st) (hauth : st.origin query.state = some auth) :
    Traced parses (forward parses st t query auth) := by
  have hdone : Traced parses
      ((st.letGo t).goto t (.done (some (forwardProxiedCallback parses auth query)))) :=
    (h.held _).goto rfl fun _ _ hc => by cases hc
  unfold ProxiedProtocol.forward
  dsimp only
  cases hresponse : forwardProxiedCallback parses auth query with
  | error e =>
    rw [hresponse] at hdone
    exact hdone
  | ok location =>
    rw [hresponse] at hdone
    refine ⟨hdone.memory, hdone.backend, hdone.carries, hdone.minted, hdone.toPark, ?_⟩
    intro f hf
    rcases List.mem_cons.mp hf with rfl | hf
    · exact ⟨auth, query, hauth, rfl, hresponse⟩
    · exact hdone.sent f hf

/-- Nothing has been parked under the server state of a task that is to park. -/
theorem Traced.park (h : Traced parses st) (hpc : (st.tasks t).pc = .park s auth)
    {proxied : HashMap String (ProxiedAuthorization × Nat)} {at' : Nat}
    (hmem : ∀ s e, proxied.get? s = some e → st.origin s = some e.1) :
    Traced parses
      ({ st.setProxied t (proxied.insert s (auth, at')) with
          parked := Function.update st.parked s (some (auth, at')) }.goto t (.persist s auth)) := by
  obtain ⟨hminted, hnone, hunique⟩ := h.toPark t s (by rw [hpc]; rfl)
  have horigin : ∀ s' auth', st.origin s' = some auth' →
      (Function.update st.parked s (some (auth, at')) s').map (·.1) = some auth' := by
    intro s' auth' hs'
    have hne : s' ≠ s := by
      intro heq
      rw [heq, hnone] at hs'
      cases hs'
    rw [Function.update_of_ne hne]
    exact hs'
  have hself : (Function.update st.parked s (some (auth, at')) s).map (·.1) = some auth := by
    rw [Function.update_self]
    rfl
  have hnew : ∀ s' e, (proxied.insert s (auth, at')).get? s' = some e →
      (Function.update st.parked s (some (auth, at')) s').map (·.1) = some e.1 := by
    intro s' e he
    rw [HashMap.get?_insert] at he
    split at he
    · next heq =>
      cases he
      rw [heq]
      exact hself
    · exact horigin s' e.1 (hmem s' e he)
  have hothers : ∀ u, u ≠ t → ∀ s', (st.tasks u).pc.toPark = some s' → s' ≠ s := by
    intro u hut s' hu heq
    exact hut (hunique u (heq ▸ hu))
  refine ⟨?_, fun s' e he => horigin s' e.1 (h.backend s' e he), ?_, ?_, ?_, ?_⟩
  · exact (forall_update_iff (P := fun _ (m : HashMap String (ProxiedAuthorization × Nat)) =>
      ∀ s' e, m.get? s' = some e →
        (Function.update st.parked s (some (auth, at')) s').map (·.1) = some e.1)).mpr
      ⟨hnew, fun i _ s' e he => horigin s' e.1 (h.memory i s' e he)⟩
  · refine (forall_update_iff (P := fun _ (task : Task) => ∀ s' auth',
      task.pc.carries = some (s', auth') →
        (Function.update st.parked s (some (auth, at')) s').map (·.1) = some auth')).mpr
      ⟨fun s' auth' hc => ?_, fun u _ s' auth' hc => horigin s' auth' (h.carries u s' auth' hc)⟩
    cases hc
    exact hself
  · intro s' hs'
    by_cases heq : s' = s
    · rw [heq]
      exact hminted
    · refine h.minted s' fun hnone' => hs' ?_
      show (Function.update st.parked s (some (auth, at')) s').map (·.1) = none
      rw [Function.update_of_ne heq]
      exact hnone'
  · have hold : ∀ u s', (Function.update st.tasks t { st.tasks t with pc := .persist s auth }
        u).pc.toPark = some s' → u ≠ t ∧ (st.tasks u).pc.toPark = some s' := by
      intro u s' hu
      by_cases hut : u = t
      · subst hut
        rw [Function.update_self] at hu
        cases hu
      · rw [Function.update_of_ne hut] at hu
        exact ⟨hut, hu⟩
    intro u s' hu
    obtain ⟨hut, hpark⟩ := hold u s' hu
    obtain ⟨hminted', hnone', hunique'⟩ := h.toPark u s' hpark
    refine ⟨hminted', ?_, fun w hw => hunique' w (hold w s' hw).2⟩
    show (Function.update st.parked s (some (auth, at')) s').map (·.1) = none
    rw [Function.update_of_ne (hothers u hut s' hpark)]
    exact hnone'
  · intro f hf
    obtain ⟨auth', query', horig, hstate, hforward⟩ := h.sent f hf
    exact ⟨auth', query', horigin _ _ horig, hstate, hforward⟩

/-! ### The steps -/

theorem origin_of_stored (h : Traced parses st) (hs : st.stored s = some auth) :
    st.origin s = some auth := by
  rw [State.stored, Option.map_eq_some_iff] at hs
  obtain ⟨e, he, rfl⟩ := hs
  exact h.backend s e (Option.filter_eq_some_iff.mp he).1

theorem Traced.run (h : Traced parses st) (hr : runSection parses st t = some st') :
    Traced parses st' := by
  unfold runSection at hr
  split at hr
  · cases hr
  · next s auth hpc =>
    cases hr
    exact h.park hpc fun s' e he => by
      rw [HashMap.get?_retain] at he
      exact h.memory _ s' e (Option.filter_eq_some_iff.mp he).1
  · next s auth hpc =>
    cases hr
    have horigin := h.carries t s auth (by rw [hpc]; rfl)
    have hstored : Traced parses { st with
        backend := st.backend.insert s (auth, st.now + PROXIED_AUTH_TIMEOUT) } := by
      refine ⟨h.memory, fun s' e he => ?_, h.carries, h.minted, h.toPark, h.sent⟩
      rw [HashMap.get?_insert] at he
      split at he
      · next heq =>
        cases he
        rw [heq]
        exact horigin
      · exact h.backend s' e he
    exact hstored.goto rfl fun _ _ hc => by cases hc
  · next query hpc =>
    split at hr
    · next auth created hget =>
      have horigin := h.memory _ _ _ hget
      have hmem : Traced parses (st.setProxied t ((st.proxied t).remove query.state)) :=
        h.setProxied fun s' e he => by
          rw [HashMap.get?_remove] at he
          split at he
          · cases he
          · exact h.memory _ s' e he
      have hcarries : ∀ s auth', (Pc.dropLocal query auth created).carries = some (s, auth') →
          st.origin s = some auth' := by
        intro s auth' hc
        cases hc
        exact horigin
      simp only [Option.some.injEq] at hr
      subst hr
      split
      · exact (hmem.held _).goto rfl hcarries
      · exact hmem.goto rfl hcarries
    · cases hr
      exact h.goto rfl fun _ _ hc => by cases hc
  · next query auth created hpc =>
    have horigin := h.carries t query.state auth (by rw [hpc]; rfl)
    split at hr
    · cases hr
      exact (h.delete query.state).forward horigin
    · cases hr
      exact ((h.delete query.state).held _).goto rfl fun _ _ hc => by cases hc
  · next query hpc =>
    split at hr
    · next auth hstored =>
      cases hr
      have horigin := origin_of_stored h hstored
      refine (h.held _).goto rfl fun s auth' hc => ?_
      cases hc
      exact horigin
    · cases hr
      exact h.goto rfl fun _ _ hc => by cases hc
  · next query auth hpc =>
    cases hr
    exact (h.delete query.state).forward (h.carries t query.state auth (by rw [hpc]; rfl))
  · cases hr

/-- A task starts to park under a server state that nothing has. -/
theorem Traced.authorize (h : Traced parses st) {inst : Nat} (hfresh : s ∉ st.minted) :
    Traced parses
      { st with
        tasks := Function.update st.tasks t { inst := inst, pc := .park s auth }
        minted := s :: st.minted } := by
  have hnone : st.origin s = none := by
    by_contra hne
    exact hfresh (h.minted s hne)
  refine ⟨h.memory, h.backend, ?_, fun s' hs' => List.mem_cons_of_mem s (h.minted s' hs'), ?_,
    h.sent⟩
  · exact (forall_update_iff (P := fun _ (task : Task) =>
      ∀ s auth, task.pc.carries = some (s, auth) → st.origin s = some auth)).mpr
      ⟨fun _ _ hc => (by cases hc), fun u _ => h.carries u⟩
  · have hold : ∀ u s', (Function.update st.tasks t { inst := inst, pc := .park s auth }
        u).pc.toPark = some s' → (u = t ∧ s' = s) ∨ (st.tasks u).pc.toPark = some s' := by
      intro u s' hu
      by_cases hut : u = t
      · subst hut
        rw [Function.update_self] at hu
        cases hu
        exact Or.inl ⟨rfl, rfl⟩
      · rw [Function.update_of_ne hut] at hu
        exact Or.inr hu
    have hother : ∀ u s', (st.tasks u).pc.toPark = some s' → s' ≠ s := by
      intro u s' hu heq
      exact hfresh (heq ▸ (h.toPark u s' hu).1)
    intro u s' hu
    rcases hold u s' hu with ⟨rfl, rfl⟩ | hpark
    · refine ⟨List.mem_cons_self, hnone, fun w hw => ?_⟩
      rcases hold w s' hw with ⟨rfl, -⟩ | hw'
      · rfl
      · exact absurd rfl (hother w s' hw')
    · obtain ⟨hminted, hnone', hunique⟩ := h.toPark u s' hpark
      refine ⟨List.mem_cons_of_mem s hminted, hnone', fun w hw => ?_⟩
      rcases hold w s' hw with ⟨-, heq⟩ | hw'
      · exact absurd heq (hother u s' hpark)
      · exact hunique w hw'

theorem Traced.step (h : Traced parses st) (hs : step parses st l = some st') :
    Traced parses st' := by
  cases l with
  | tick d =>
    cases hs
    exact ⟨h.memory, h.backend, h.carries, h.minted, h.toPark, h.sent⟩
  | authorize t inst s auth =>
    simp only [ProxiedProtocol.step] at hs
    split at hs
    · split at hs
      · cases hs
      · next hfresh =>
        cases hs
        exact h.authorize hfresh
    · cases hs
  | callback t inst query =>
    simp only [ProxiedProtocol.step] at hs
    split at hs
    · cases hs
      exact h.setTask rfl fun _ _ hc => by cases hc
    · cases hs
  | run t => exact h.run hs

end Traced

/-! ## What the client reads -/

section Read

open ProxyWire

variable (parseTarget : String → Option Target)

/-- The redirect URI has its own parameters and then those of a response. -/
structure ReadAs (lossy : ByteArray → String) (location : Location) (auth : ProxiedAuthorization)
    (query : CallbackQuery) (target : Target) : Prop where
  parsed : parseTarget auth.redirectUri = some target
  sentTo : location.target = auth.redirectUri
  base : (target.append location.pairs).base = target.base
  read : formParse lossy (queryOf (target.append location.pairs).text) =
    formParse lossy (queryOf target.text) ++ (answerPairs query ++
      optionalPair "state" auth.clientState ++ [("iss", auth.issuer)])

/-- **Each response is its own client's** in every run, whatever the order of the
steps: what is sent for a server state goes to the redirect URI that was parked
under it, and the client reads there its own parameters, the answer of a callback
with that server state, its own state and the issuer. -/
theorem forwarded_reads (lossy : ByteArray → String) {st : State}
    (hr : (system fun uri => (parseTarget uri).isSome).Reach (fun _ _ => True) init st) :
    ∀ f ∈ st.forwarded, ∃ auth parkedAt query target,
      st.parked f.serverState = some (auth, parkedAt) ∧ query.state = f.serverState ∧
        ReadAs parseTarget lossy f.location auth query target := by
  have htraced : Traced (fun uri => (parseTarget uri).isSome) st :=
    hr.invariant Traced.init fun _ _ _ h _ hs => h.step hs
  intro f hf
  obtain ⟨auth, query, horigin, hstate, hforward⟩ := htraced.sent f hf
  obtain ⟨⟨auth', parkedAt⟩, hparked, rfl⟩ := Option.map_eq_some_iff.mp horigin
  obtain ⟨hparses, htarget, hpairs⟩ := forwardProxiedCallback_pairs hforward
  obtain ⟨target, hparsed⟩ := Option.isSome_iff_exists.mp hparses
  refine ⟨auth', parkedAt, query, target, hparked, hstate, hparsed, htarget, rfl, ?_⟩
  rw [formParse_append, hpairs]

/-- `https://client/cb?tenant=t`. -/
def withTenant (_ : String) : Option Target :=
  some ⟨"https://client/cb".toList, some "tenant=t".toList, none, by decide, by
    intro q hq
    cases hq
    decide⟩

/-- An authorization is forwarded twice, each time to its own client. -/
theorem replayed_callback_reads :
    ∃ st : State, st.forwarded.length = 2 ∧
      ∀ f ∈ st.forwarded, ∃ auth parkedAt query target,
        st.parked f.serverState = some (auth, parkedAt) ∧ query.state = f.serverState ∧
          ReadAs withTenant (fun _ => "") f.location auth query target := by
  obtain ⟨st, hr, hp⟩ := System.exists_reach_of_run
    (S := system fun uri => (withTenant uri).isSome) (G := fun _ _ => True) (s := init)
    (w := parks 0 "s" ++ callsBackThere 1 "s" ++ callsBackHere 2 "s")
    (p := fun st => decide (st.forwarded.length = 2)) (by decide +kernel)
  exact ⟨st, of_decide_eq_true hp, forwarded_reads withTenant (fun _ => "") hr⟩

end Read

end McpFramework.ProxiedProtocol
