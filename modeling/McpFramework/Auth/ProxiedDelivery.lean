import McpFramework.Auth.ProxiedAuthorization

/-!
# Auth — ProxiedDelivery

When a proxied authorization is delivered once and in time.

The invariant counts where a server state is: it is never both held by a
callback and forwarded, nor twice one of them, and once it is forwarded the
backend does not have it. The memory of the parking instance may still have it;
that is where a second callback finds it unless the run is `Orderly`.
-/

namespace McpFramework.ProxiedProtocol

open Lib

/-! ## The invariant -/

section Invariant

variable {parses : String → Bool} {st st' : State} {t : Nat} {pc : Pc} {l : Label}
  {s : String} {auth : ProxiedAuthorization} {query : CallbackQuery} {fromBackend : Bool}

/-- The server state an authorization is still being parked under. -/
def Pc.parking : Pc → Option String
  | .park serverState _ => some serverState
  | .persist serverState _ => some serverState
  | _ => none

def State.forwardedStates (st : State) : List String := st.forwarded.map (·.serverState)

/-- What a task knows of the authorization it is at. -/
def Knows (now : Nat) (parked : String → Option (ProxiedAuthorization × Nat)) (held : List Held)
    (t : Nat) : Pc → Prop
  | .park serverState _ => parked serverState = none
  | .persist serverState auth => ∃ parkedAt, parked serverState = some (auth, parkedAt)
  | .dropLocal query auth created =>
    parked query.state = some (auth, created) ∧
      (now - created ≤ PROXIED_AUTH_TIMEOUT → ⟨t, query.state, false⟩ ∈ held)
  | .dropBackend query auth =>
    ⟨t, query.state, true⟩ ∈ held ∧
      ∃ parkedAt, parked query.state = some (auth, parkedAt) ∧
        now ≤ parkedAt + PROXIED_AUTH_TIMEOUT
  | _ => True

/-- A task does not mind what becomes of the others. -/
theorem Knows.of_held {now : Nat} {parked : String → Option (ProxiedAuthorization × Nat)}
    {held held' : List Held} (h : Knows now parked held t pc)
    (hheld : ∀ x ∈ held, x.task = t → x ∈ held') : Knows now parked held' t pc := by
  cases pc with
  | dropLocal query auth created => exact ⟨h.1, fun hin => hheld _ (h.2 hin) rfl⟩
  | dropBackend query auth => exact ⟨hheld _ h.1 rfl, h.2⟩
  | _ => exact h

structure Inv (st : State) : Prop where
  once : (st.heldStates ++ st.forwardedStates).Nodup
  spent : ∀ s ∈ st.forwardedStates, st.backend.get? s = none
  memory : ∀ i s entry, (st.proxiedAuths i).get? s = some entry → st.parked s = some entry
  backend : ∀ s entry, st.backend.get? s = some entry →
    ∃ parkedAt, st.parked s = some (entry.1, parkedAt)
  held : ∀ s ∈ st.heldStates, st.parked s ≠ none
  minted : ∀ s, st.parked s ≠ none → s ∈ st.minted
  parking : ∀ t s, (st.tasks t).pc.parking = some s → s ∈ st.minted ∧
    st.backend.get? s = none ∧ s ∉ st.heldStates ∧ s ∉ st.forwardedStates ∧
    ∀ u, (st.tasks u).pc.parking = some s → u = t
  knows : ∀ t, Knows st.now st.parked st.held t (st.tasks t).pc
  delivered : ∀ f ∈ st.forwarded, ∃ auth parkedAt,
    st.parked f.serverState = some (auth, parkedAt) ∧ f.location.target = auth.redirectUri ∧
      f.location.pairs.lookup "state" = auth.clientState ∧
      f.instant ≤ parkedAt + PROXIED_AUTH_TIMEOUT

theorem Inv.init : Inv init where
  once := .nil
  spent := fun _ h => by cases h
  memory := fun _ _ _ h => by simp [ProxiedProtocol.init] at h
  backend := fun _ _ h => by simp [ProxiedProtocol.init] at h
  held := fun _ h => by cases h
  minted := fun _ h => absurd rfl h
  parking := fun _ _ h => by cases h
  knows := fun _ => trivial
  delivered := fun _ h => by cases h

theorem Inv.parked_of_forwarded (h : Inv st) (hs : s ∈ st.forwardedStates) :
    st.parked s ≠ none := by
  obtain ⟨f, hf, rfl⟩ := List.mem_map.mp hs
  obtain ⟨auth, parkedAt, hparked, -⟩ := h.delivered f hf
  rw [hparked]
  exact Option.some_ne_none _

/-! ### One change at a time -/

/-- A task moves, and is not parking any more or what it was before. -/
theorem Inv.setTask (h : Inv st) {task : Task}
    (hparking : task.pc.parking = none ∨ task.pc.parking = (st.tasks t).pc.parking)
    (hknows : Knows st.now st.parked st.held t task.pc) :
    Inv { st with tasks := Function.update st.tasks t task } := by
  have hpark : ∀ u s, (Function.update st.tasks t task u).pc.parking = some s →
      (st.tasks u).pc.parking = some s := fun u s hu => by
    by_cases hut : u = t
    · subst hut
      rw [Function.update_self] at hu
      rcases hparking with hnone | hsame
      · rw [hnone] at hu
        cases hu
      · rwa [← hsame]
    · rwa [Function.update_of_ne hut] at hu
  refine ⟨h.once, h.spent, h.memory, h.backend, h.held, h.minted, fun u s hu => ?_,
    (forall_update_iff (P := fun u (task : Task) => Knows st.now st.parked st.held u task.pc)).mpr
      ⟨hknows, fun u _ => h.knows u⟩, h.delivered⟩
  obtain ⟨hminted, hbackend, hheld, hforwarded, hunique⟩ := h.parking u s (hpark u s hu)
  exact ⟨hminted, hbackend, hheld, hforwarded, fun w hw => hunique w (hpark w s hw)⟩

theorem Inv.goto (h : Inv st) (hparking : pc.parking = none ∨ pc.parking = (st.tasks t).pc.parking)
    (hknows : Knows st.now st.parked st.held t pc) : Inv (st.goto t pc) := by
  have htask : Knows st.now st.parked st.held t ({ st.tasks t with pc := pc } : Task).pc := hknows
  exact h.setTask hparking htask

/-- Time passes, and outlasts no callback that has read the backend. -/
theorem Inv.tick (h : Inv st) {d : Nat} (hg : Orderly st (.tick d)) :
    Inv { st with now := st.now + d } := by
  refine ⟨h.once, h.spent, h.memory, h.backend, h.held, h.minted, h.parking, fun u => ?_,
    h.delivered⟩
  have hu := h.knows u
  cases hpc : (st.tasks u).pc with
  | dropLocal query auth created =>
    rw [hpc] at hu
    exact ⟨hu.1, fun hin => hu.2 ((Nat.sub_le_sub_right (Nat.le_add_right ..) created).trans hin)⟩
  | dropBackend query auth =>
    rw [hpc] at hu
    obtain ⟨hheld, parkedAt, hparked, -⟩ := hu
    have hin := hg _ hheld rfl
    simp only [State.inTime, hparked, Option.all_some, decide_eq_true_eq] at hin
    exact ⟨hheld, parkedAt, hparked, hin⟩
  | _ =>
    rw [hpc] at hu
    exact hu

/-- A callback finds what the backend has and nobody holds. -/
theorem Inv.hold (h : Inv st) {entry : ProxiedAuthorization × Nat}
    (hbackend : st.backend.get? s = some entry) (hheld : s ∉ st.heldStates) :
    Inv (st.hold t s fromBackend) := by
  have hforwarded : s ∉ st.forwardedStates := fun hs => by
    rw [h.spent s hs] at hbackend
    cases hbackend
  have hparked : st.parked s ≠ none := by
    obtain ⟨parkedAt, hparked⟩ := h.backend s entry hbackend
    rw [hparked]
    exact Option.some_ne_none _
  refine ⟨?_, h.spent, h.memory, h.backend, fun k hk => ?_, h.minted, fun u k hu => ?_,
    fun u => ?_, h.delivered⟩
  · refine List.nodup_cons.mpr ⟨fun hmem => ?_, h.once⟩
    exact (List.mem_append.mp hmem).elim hheld hforwarded
  · rcases List.mem_cons.mp hk with rfl | hk
    · exact hparked
    · exact h.held k hk
  · obtain ⟨hminted, hnone, hnot, hrest⟩ := h.parking u k hu
    refine ⟨hminted, hnone, fun hk => ?_, hrest⟩
    rcases List.mem_cons.mp hk with rfl | hk
    · rw [hbackend] at hnone
      cases hnone
    · exact hnot hk
  · exact (h.knows u).of_held fun x hx _ => List.mem_cons_of_mem _ hx

/-- The memory of an instance loses entries. -/
theorem Inv.setProxied (h : Inv st) {proxied : HashMap String (ProxiedAuthorization × Nat)}
    (hsub : ∀ s entry, proxied.get? s = some entry → (st.proxied t).get? s = some entry) :
    Inv (st.setProxied t proxied) := by
  refine ⟨h.once, h.spent, fun i s entry hentry => ?_, h.backend, h.held, h.minted, h.parking,
    h.knows, h.delivered⟩
  by_cases hi : i = (st.tasks t).inst
  · subst hi
    simp only [State.setProxied, Function.update_self] at hentry
    exact h.memory _ s entry (hsub s entry hentry)
  · simp only [State.setProxied, Function.update_of_ne hi] at hentry
    exact h.memory i s entry hentry

theorem Inv.delete (h : Inv st) (s : String) : Inv (st.delete s) := by
  have hsub : ∀ k entry, (st.delete s).backend.get? k = some entry →
      st.backend.get? k = some entry := fun k entry hk => by
    simp only [State.delete, HashMap.get?_remove] at hk
    split at hk
    · cases hk
    · exact hk
  have hnone : ∀ k, st.backend.get? k = none → (st.delete s).backend.get? k = none :=
    fun k hk => by
      simp only [State.delete, HashMap.get?_remove, hk, ite_self]
  refine ⟨h.once, fun k hk => hnone k (h.spent k hk), h.memory,
    fun k entry hk => h.backend k entry (hsub k entry hk), h.held, h.minted, fun u k hu => ?_,
    h.knows, h.delivered⟩
  obtain ⟨hminted, hbackend, hrest⟩ := h.parking u k hu
  exact ⟨hminted, hnone k hbackend, hrest⟩

/-- What is held without one task's share. -/
theorem heldStates_letGo : (st.letGo t).heldStates.Sublist st.heldStates :=
  List.filter_sublist.map _

/-- A task that relies on nothing it holds lets go. -/
theorem Inv.letGo (h : Inv st) (hpc : ∀ held, Knows st.now st.parked held t (st.tasks t).pc) :
    Inv (st.letGo t) := by
  have hsub : ∀ s ∈ (st.letGo t).heldStates, s ∈ st.heldStates := fun s hs =>
    heldStates_letGo.subset hs
  refine ⟨h.once.sublist (heldStates_letGo.append_right _), h.spent, h.memory, h.backend,
    fun s hs => h.held s (hsub s hs), h.minted, fun u s hu => ?_, fun u => ?_, h.delivered⟩
  · obtain ⟨hminted, hbackend, hheld, hrest⟩ := h.parking u s hu
    exact ⟨hminted, hbackend, fun hs => hheld (hsub s hs), hrest⟩
  · by_cases hut : u = t
    · subst hut
      exact hpc _
    · refine (h.knows u).of_held fun x hx htask => List.mem_filter.mpr ⟨hx, ?_⟩
      rw [htask]
      exact decide_eq_true hut

theorem Inv.finish (h : Inv st) (t : Nat) (response : Option (Except HttpError Location)) :
    Inv ((st.letGo t).goto t (.done response)) := by
  have hdone : Inv (st.goto t (.done response)) := h.goto (.inl rfl) trivial
  refine hdone.letGo (t := t) fun held => ?_
  simp only [State.goto, Function.update_self]
  trivial

/-- An authorization is parked under its fresh server state. -/
theorem Inv.park (h : Inv st) {proxied : HashMap String (ProxiedAuthorization × Nat)}
    (hpc : (st.tasks t).pc = .park s auth)
    (hsub : ∀ k entry, proxied.get? k = some entry → (st.proxied t).get? k = some entry) :
    Inv ({ st.setProxied t (proxied.insert s (auth, st.now)) with
      parked := Function.update st.parked s (some (auth, st.now)) }.goto t (.persist s auth)) := by
  have hnone : st.parked s = none := by
    have hknows := h.knows t
    rw [hpc] at hknows
    exact hknows
  obtain ⟨hminted, -, -, -, hunique⟩ := h.parking t s (by rw [hpc]; rfl)
  -- Nothing was parked under the fresh state, so all that was parked stays.
  have hkeep : ∀ k entry, st.parked k = some entry →
      Function.update st.parked s (some (auth, st.now)) k = some entry := fun k entry hk => by
    have hne : k ≠ s := by
      rintro rfl
      rw [hnone] at hk
      cases hk
    rwa [Function.update_of_ne hne]
  have hstay : ∀ k, st.parked k ≠ none →
      Function.update st.parked s (some (auth, st.now)) k ≠ none := fun k hk => by
    obtain ⟨entry, hentry⟩ := Option.ne_none_iff_exists'.mp hk
    rw [hkeep k entry hentry]
    exact Option.some_ne_none _
  have hparked : Inv { st.setProxied t (proxied.insert s (auth, st.now)) with
      parked := Function.update st.parked s (some (auth, st.now))
      tasks := Function.update st.tasks t { st.tasks t with pc := .persist s auth } } := by
    refine ⟨h.once, h.spent, fun i k entry hentry => ?_, fun k entry hentry => ?_,
      fun k hk => hstay k (h.held k hk), fun k hk => ?_, fun u k hu => ?_, fun u => ?_,
      fun f hf => ?_⟩
    · by_cases hi : i = (st.tasks t).inst
      · subst hi
        simp only [State.setProxied, Function.update_self, HashMap.get?_insert] at hentry
        split at hentry
        · rename_i hk
          rw [hk]
          exact (Function.update_self ..).trans hentry
        · exact hkeep k entry (h.memory _ k entry (hsub k entry hentry))
      · simp only [State.setProxied, Function.update_of_ne hi] at hentry
        exact hkeep k entry (h.memory i k entry hentry)
    · obtain ⟨parkedAt, hparked⟩ := h.backend k entry hentry
      exact ⟨parkedAt, hkeep k _ hparked⟩
    · by_cases hks : k = s
      · rw [hks]
        exact hminted
      · simp only [Function.update_of_ne hks] at hk
        exact h.minted k hk
    · have hpark : ∀ u, (Function.update st.tasks t { st.tasks t with pc := .persist s auth }
          u).pc.parking = (st.tasks u).pc.parking := fun u => by
        by_cases hut : u = t
        · subst hut
          rw [Function.update_self, hpc]
          rfl
        · rw [Function.update_of_ne hut]
      obtain ⟨hminted, hbackend, hheld, hforwarded, hunique⟩ := h.parking u k
        ((hpark u).symm.trans hu)
      exact ⟨hminted, hbackend, hheld, hforwarded, fun w hw => hunique w ((hpark w).symm.trans hw)⟩
    · by_cases hut : u = t
      · subst hut
        simp only [Function.update_self]
        exact ⟨st.now, Function.update_self ..⟩
      · have hu := h.knows u
        simp only [Function.update_of_ne hut]
        cases hpcu : (st.tasks u).pc with
        | park k auth' =>
          rw [hpcu] at hu
          -- No two tasks park under one state.
          have hne : k ≠ s := by
            rintro rfl
            exact hut (hunique u (by rw [hpcu]; rfl))
          exact (Function.update_of_ne hne ..).trans hu
        | persist k auth' =>
          rw [hpcu] at hu
          obtain ⟨parkedAt, hparked⟩ := hu
          exact ⟨parkedAt, hkeep _ _ hparked⟩
        | dropLocal query auth' created =>
          rw [hpcu] at hu
          exact ⟨hkeep _ _ hu.1, hu.2⟩
        | dropBackend query auth' =>
          rw [hpcu] at hu
          obtain ⟨hheld, parkedAt, hparked, hin⟩ := hu
          exact ⟨hheld, parkedAt, hkeep _ _ hparked, hin⟩
        | _ => trivial
    · obtain ⟨auth', parkedAt, hparked, hrest⟩ := h.delivered f hf
      exact ⟨auth', parkedAt, hkeep _ _ hparked, hrest⟩
  exact hparked

/-- It is written through to the backend. -/
theorem Inv.persist (h : Inv st) {deadline : Nat} (hpc : (st.tasks t).pc = .persist s auth) :
    Inv ({ st with backend := st.backend.insert s (auth, deadline) }.goto t (.done none)) := by
  have hknows := h.knows t
  rw [hpc] at hknows
  obtain ⟨-, -, hheld, hforwarded, hunique⟩ := h.parking t s (by rw [hpc]; rfl)
  have hdone : Inv (st.goto t (.done none)) := h.goto (.inl rfl) trivial
  refine ⟨hdone.once, fun k hk => ?_, hdone.memory, fun k entry hentry => ?_, hdone.held,
    hdone.minted, fun u k hu => ?_, hdone.knows, hdone.delivered⟩
  · have hne : k ≠ s := by
      rintro rfl
      exact hforwarded hk
    exact (HashMap.get?_insert_of_ne _ _ hne).trans (h.spent k hk)
  · by_cases hks : k = s
    · subst hks
      have heq := (HashMap.get?_insert_self st.backend k (auth, deadline)).symm.trans hentry
      cases heq
      exact hknows
    · exact h.backend k entry ((HashMap.get?_insert_of_ne _ _ hks).symm.trans hentry)
  · have hut : u ≠ t := by
      rintro rfl
      simp [State.goto, Pc.parking] at hu
    have hold : (st.tasks u).pc.parking = some k := by
      simpa [State.goto, Function.update_of_ne hut] using hu
    have hne : k ≠ s := by
      rintro rfl
      exact hut (hunique u hold)
    obtain ⟨hminted, hbackend, hrest⟩ := hdone.parking u k hu
    exact ⟨hminted, (HashMap.get?_insert_of_ne _ _ hne).trans hbackend, hrest⟩

/-- The callback that holds an authorization is done with it. -/
theorem Inv.forward (h : Inv st) (hheld : ⟨t, query.state, fromBackend⟩ ∈ st.held)
    {parkedAt : Nat} (hparked : st.parked query.state = some (auth, parkedAt))
    (hin : st.now ≤ parkedAt + PROXIED_AUTH_TIMEOUT) :
    Inv (forward parses (st.delete query.state) t query auth) := by
  have hdone := (h.delete query.state).finish t
    (some (forwardProxiedCallback parses auth query))
  simp only [ProxiedProtocol.forward]
  split
  · rename_i location hlocation
    obtain ⟨htarget, hstate⟩ := forwardProxiedCallback_ok hlocation
    have hmem : query.state ∈ st.heldStates := List.mem_map_of_mem hheld
    -- What is let go is the only share of the server state.
    have honly : query.state ∉ (st.letGo t).heldStates := fun hs => by
      obtain ⟨x, hx, hxs⟩ := List.mem_map.mp hs
      obtain ⟨hx, hxt⟩ := List.mem_filter.mp hx
      have heq := List.inj_on_of_nodup_map (h.once.sublist (List.sublist_append_left ..)) hx hheld
        hxs
      rw [heq] at hxt
      simp at hxt
    have hnot : query.state ∉ st.forwardedStates := fun hs =>
      (List.disjoint_of_nodup_append h.once) hmem hs
    refine ⟨?_, fun s hs => ?_, hdone.memory, hdone.backend, hdone.held, hdone.minted,
      fun u s hu => ?_, hdone.knows, fun f hf => ?_⟩
    · refine List.nodup_middle.mpr (List.nodup_cons.mpr ⟨fun hs => ?_, hdone.once⟩)
      exact (List.mem_append.mp hs).elim honly hnot
    · rcases List.mem_cons.mp hs with rfl | hs
      · exact HashMap.get?_remove_self ..
      · exact hdone.spent s hs
    · obtain ⟨hminted, hbackend, hnone, hforwarded, hunique⟩ := hdone.parking u s hu
      refine ⟨hminted, hbackend, hnone, fun hs => ?_, hunique⟩
      rcases List.mem_cons.mp hs with rfl | hs
      · have hut : u ≠ t := by
          rintro rfl
          simp [State.goto, State.letGo, Pc.parking] at hu
        have hold : (st.tasks u).pc.parking = some query.state := by
          simpa [State.goto, State.letGo, State.delete, Function.update_of_ne hut] using hu
        exact (h.parking u _ hold).2.2.1 hmem
      · exact hforwarded hs
    · rcases List.mem_cons.mp hf with rfl | hf
      · exact ⟨auth, parkedAt, hparked, htarget, hstate, hin⟩
      · exact hdone.delivered f hf
  · exact hdone

/-! ### The steps -/

theorem stored_isSome (h : (st.stored s).isSome = true) :
    ∃ entry, st.backend.get? s = some entry := by
  unfold State.stored at h
  cases hs : st.backend.get? s with
  | none => simp [hs] at h
  | some entry => exact ⟨entry, rfl⟩

theorem Inv.run (h : Inv st) (hg : Orderly st (.run t)) (hr : runSection parses st t = some st') :
    Inv st' := by
  have hknows := h.knows t
  cases hpc : (st.tasks t).pc with
  | idle => simp [runSection, hpc] at hr
  | done response => simp [runSection, hpc] at hr
  | park s auth =>
    simp only [runSection, hpc, Option.some.injEq] at hr
    subst hr
    refine h.park hpc fun k entry hentry => ?_
    rw [HashMap.get?_retain] at hentry
    exact (Option.filter_eq_some_iff.mp hentry).1
  | persist s auth =>
    simp only [runSection, hpc, Option.some.injEq] at hr
    subst hr
    exact h.persist hpc
  | takeLocal query =>
    simp only [runSection, hpc] at hr
    split at hr <;> cases hr
    · rename_i auth created hentry
      have hparked := h.memory _ _ _ hentry
      have htaken : Inv (st.setProxied t ((st.proxied t).remove query.state)) :=
        h.setProxied fun k entry hk => by
          rw [HashMap.get?_remove] at hk
          split at hk
          · cases hk
          · exact hk
      split
      · -- In time: by the condition the backend still has it and nobody holds it.
        rename_i hin
        simp only [Orderly, Takes, hpc, hentry, Option.any_some, decide_eq_true_eq] at hg
        obtain ⟨hstored, hheld⟩ := hg hin
        obtain ⟨entry, hbackend⟩ := stored_isSome hstored
        exact (htaken.hold hbackend hheld).goto (.inl rfl)
          ⟨hparked, fun _ => List.mem_cons_self ..⟩
      · -- Too late, and it will be dropped.
        rename_i hlate
        exact htaken.goto (.inl rfl) ⟨hparked, fun hin => absurd hin hlate⟩
    · exact h.goto (.inl rfl) trivial
  | dropLocal query auth created =>
    rw [hpc] at hknows
    obtain ⟨hparked, hheld⟩ := hknows
    simp only [runSection, hpc] at hr
    split at hr <;> cases hr
    · rename_i hin
      exact h.forward (hheld hin) hparked (by omega)
    · exact (h.delete query.state).finish t none
  | readThrough query =>
    simp only [runSection, hpc] at hr
    split at hr <;> cases hr
    · rename_i auth hstored
      have hsome : (st.stored query.state).isSome = true := by rw [hstored]; rfl
      simp only [Orderly, Takes, hpc] at hg
      obtain ⟨hheld, hin⟩ := hg hsome
      obtain ⟨entry, hbackend⟩ := stored_isSome hsome
      obtain ⟨parkedAt, hparked⟩ := h.backend _ _ hbackend
      -- What the backend has is what was parked.
      have hauth : entry.1 = auth := by
        unfold State.stored at hstored
        rw [hbackend] at hstored
        obtain ⟨e, he, rfl⟩ := Option.map_eq_some_iff.mp hstored
        rw [Option.some.inj (Option.filter_eq_some_iff.mp he).1]
      rw [hauth] at hparked
      simp only [State.inTime, hparked, Option.all_some, decide_eq_true_eq, Nat.add_zero] at hin
      exact (h.hold hbackend hheld).goto (.inl rfl)
        ⟨List.mem_cons_self .., parkedAt, hparked, hin⟩
    · exact h.goto (.inl rfl) trivial
  | dropBackend query auth =>
    rw [hpc] at hknows
    obtain ⟨hheld, parkedAt, hparked, hin⟩ := hknows
    simp only [runSection, hpc, Option.some.injEq] at hr
    subst hr
    exact h.forward hheld hparked hin

/-- A fresh server state is made up. -/
theorem Inv.authorize (h : Inv st) {inst : Nat} (hpc : (st.tasks t).pc = .idle)
    (hfresh : s ∉ st.minted) :
    Inv { st with
      tasks := Function.update st.tasks t { inst := inst, pc := .park s auth }
      minted := s :: st.minted } := by
  have hnone : st.parked s = none := by
    by_contra hparked
    exact hfresh (h.minted s hparked)
  have hcases : ∀ u k, (Function.update st.tasks t { inst := inst, pc := .park s auth }
      u).pc.parking = some k → (u = t ∧ k = s) ∨ (u ≠ t ∧ (st.tasks u).pc.parking = some k) :=
    fun u k hu => by
      by_cases hut : u = t
      · subst hut
        rw [Function.update_self] at hu
        exact .inl ⟨rfl, (Option.some.inj hu).symm⟩
      · rw [Function.update_of_ne hut] at hu
        exact .inr ⟨hut, hu⟩
  refine ⟨h.once, h.spent, h.memory, h.backend, h.held,
    fun k hk => List.mem_cons_of_mem _ (h.minted k hk), fun u k hu => ?_, fun u => ?_,
    h.delivered⟩
  · rcases hcases u k hu with ⟨rfl, rfl⟩ | ⟨hut, hold⟩
    · refine ⟨List.mem_cons_self .., ?_, fun hs => h.held _ hs hnone,
        fun hs => h.parked_of_forwarded hs hnone, fun w hw => ?_⟩
      · cases hb : st.backend.get? k with
        | none => rfl
        | some entry =>
          obtain ⟨parkedAt, hparked⟩ := h.backend k entry hb
          rw [hnone] at hparked
          cases hparked
      · rcases hcases w _ hw with ⟨rfl, -⟩ | ⟨-, hold⟩
        · rfl
        · exact absurd (h.parking w _ hold).1 hfresh
    · obtain ⟨hminted, hbackend, hheld, hforwarded, hunique⟩ := h.parking u k hold
      refine ⟨List.mem_cons_of_mem _ hminted, hbackend, hheld, hforwarded, fun w hw => ?_⟩
      rcases hcases w k hw with ⟨rfl, rfl⟩ | ⟨-, hold'⟩
      · exact absurd hminted hfresh
      · exact hunique w hold'
  · by_cases hut : u = t
    · subst hut
      simp only [Function.update_self]
      exact hnone
    · simp only [Function.update_of_ne hut]
      exact h.knows u

theorem Inv.step (h : Inv st) (hg : Orderly st l) (hs : step parses st l = some st') :
    Inv st' := by
  cases l with
  | tick d =>
    cases hs
    exact h.tick hg
  | authorize t inst s auth =>
    simp only [ProxiedProtocol.step] at hs
    split at hs
    · rename_i hpc
      split at hs <;> cases hs
      rename_i hfresh
      exact h.authorize hpc hfresh
    · cases hs
  | callback t inst query =>
    simp only [ProxiedProtocol.step] at hs
    split at hs <;> cases hs
    exact h.setTask (.inl rfl) trivial
  | run t => exact h.run hg hs

end Invariant

/-- **Delivered once, to its client, in time** in every orderly run. -/
theorem delivered_of_orderly (parses : String → Bool) (st : State)
    (hr : (system parses).Reach Orderly init st) : Delivered st := by
  have hinv : Inv st := hr.invariant Inv.init fun _ _ _ h hg hs => h.step hg hs
  exact ⟨hinv.once.sublist (List.sublist_append_right ..), hinv.delivered⟩

/-! ## Two callbacks -/

def fromClient (clientState : String) : ProxiedAuthorization :=
  ⟨"https://client/cb", some clientState, "https://server"⟩

def withCode (serverState : String) : CallbackQuery :=
  ⟨some "code", serverState, none, none, none⟩

/-- Task `t` parks an authorization on instance 0. -/
def parks (t : Nat) (serverState : String) : List Label :=
  [.authorize t 0 serverState (fromClient "xyz"), .run t, .run t]

/-- The authorization is in the memory of instance 0. -/
def callsBackHere (t : Nat) (serverState : String) : List Label :=
  [.callback t 0 (withCode serverState), .run t, .run t]

/-- It is only in the backend for instance 1. -/
def callsBackThere (t : Nat) (serverState : String) : List Label :=
  [.callback t 1 (withCode serverState), .run t, .run t, .run t]

/-- One is called back on its own instance and again on another one, the other
one elsewhere and at the last instant. -/
def calledBackOnce : List Label :=
  parks 0 "s" ++ parks 1 "u" ++ callsBackHere 2 "s" ++
    [.callback 3 1 (withCode "s"), .run 3, .run 3, .tick (PROXIED_AUTH_TIMEOUT - 1)] ++
    callsBackThere 4 "u"

theorem delivered_when_called_back_once :
    ∃ st, Delivered st ∧ st.forwardedStates = ["u", "s"] := by
  obtain ⟨st, hr, hp⟩ := System.exists_reach_of_run (S := system fun _ => true) (G := Orderly)
    (s := init) (w := calledBackOnce) (p := fun st => decide (st.forwardedStates = ["u", "s"]))
    (by decide +kernel)
  exact ⟨st, delivered_of_orderly (fun _ => true) st hr, of_decide_eq_true hp⟩

/-- The callback is replayed on the instance that parked the authorization. -/
def replayed : List Label := parks 0 "s" ++ callsBackThere 1 "s" ++ callsBackHere 2 "s"

theorem replayed_callback_forwarded_twice :
    ¬ ∀ (parses : String → Bool) (st : State),
      (system parses).Reach (fun _ _ => True) init st → Delivered st := by
  intro h
  obtain ⟨st, hr, hp⟩ := System.exists_reach_of_run (S := system fun _ => true)
    (G := fun _ _ => True) (s := init) (w := replayed)
    (p := fun st => decide (st.forwardedStates = ["s", "s"])) (by decide +kernel)
  have hnodup : st.forwardedStates.Nodup := (h (fun _ => true) st hr).1
  rw [of_decide_eq_true hp] at hnodup
  exact absurd hnodup (by decide)

end McpFramework.ProxiedProtocol
