import McpFramework.Lib.HashMap
import McpFramework.Lib.Transition

/-!
# Auth — ClientRedirects

The redirect URIs of the registered clients (`auth/store.rs`): a bounded table in
the memory of each instance, over the lists of one backend, and each call run to
its end before the next one starts.

A registration merges with what its instance has in memory and overwrites the
backend's list with the result. What another instance registered is lost unless
this one has read it: `Covered` says that it loses nothing.
-/

namespace McpFramework.ClientRedirects

open Lib

/-! ## The calls -/

/-- Upper bound on the in-memory table. -/
def MAX_CACHED_CLIENTS : Nat := 10000

abbrev Clients := HashMap String (List String)

/-- Append what is not there yet, URI by URI. -/
def mergeUris (merged redirectUris : List String) : List String :=
  redirectUris.foldl (fun merged uri => if merged.contains uri then merged else merged ++ [uri])
    merged

/-- The table and the backend after a registration. -/
def registerClientRedirects (clients persisted : Clients) (clientId : String)
    (redirectUris : List String) : Clients × Clients :=
  let merged := mergeUris ((clients.get? clientId).getD []) redirectUris
  -- A full table keeps its clients; a new one is only persisted.
  let clients :=
    if clients.containsKey clientId || decide (clients.len < MAX_CACHED_CLIENTS) then
      clients.insert clientId merged
    else clients
  (clients, persisted.insert clientId merged)

/-- The table after a lookup, and what is found. -/
def clientRedirects (clients persisted : Clients) (clientId : String) :
    Clients × Option (List String) :=
  match clients.get? clientId with
  | some uris => (clients, some uris)
  | none =>
    match persisted.get? clientId with
    | some uris =>
      (if clients.len < MAX_CACHED_CLIENTS then clients.insert clientId uris else clients,
        some uris)
    | none => (clients, none)

/-! ## The instances -/

/-- `registered` is ghost: all that was ever registered for a client. -/
structure State where
  clients : Nat → Clients
  persisted : Clients
  registered : String → List String

inductive Label where
  | register (inst : Nat) (clientId : String) (redirectUris : List String)
  | lookup (inst : Nat) (clientId : String)
  | restart (inst : Nat)

def init : State :=
  { clients := fun _ => HashMap.empty, persisted := HashMap.empty, registered := fun _ => [] }

def step (st : State) : Label → Option State
  | .register inst clientId redirectUris =>
    let r := registerClientRedirects (st.clients inst) st.persisted clientId redirectUris
    some
      { clients := Function.update st.clients inst r.1
        persisted := r.2
        registered :=
          Function.update st.registered clientId (st.registered clientId ++ redirectUris) }
  | .lookup inst clientId =>
    let r := clientRedirects (st.clients inst) st.persisted clientId
    some { st with clients := Function.update st.clients inst r.1 }
  | .restart inst => some { st with clients := Function.update st.clients inst HashMap.empty }

def system : System State Label := ⟨step⟩

/-- The persisted list of a client. -/
def State.list (st : State) (clientId : String) : List String :=
  (st.persisted.get? clientId).getD []

/-- No registered URI is lost. -/
def Kept (st : State) : Prop :=
  ∀ clientId, ∀ uri ∈ st.registered clientId, uri ∈ st.list clientId

/-- A registration names every URI of the persisted list that its instance does
not have in memory. -/
def Covered (st : State) : Label → Prop
  | .register inst clientId redirectUris =>
    ∀ uri ∈ st.list clientId,
      uri ∈ ((st.clients inst).get? clientId).getD [] ∨ uri ∈ redirectUris
  | _ => True

instance (st : State) (l : Label) : Decidable (Covered st l) :=
  match l with
  | .register inst clientId redirectUris =>
    inferInstanceAs (Decidable (∀ uri ∈ st.list clientId,
      uri ∈ ((st.clients inst).get? clientId).getD [] ∨ uri ∈ redirectUris))
  | .lookup _ _ => isTrue trivial
  | .restart _ => isTrue trivial

/-! ## One call -/

section Call

variable {st st' : State} {clients persisted : Clients} {inst : Nat} {l : Label}
  {clientId uri : String} {redirectUris : List String}

theorem mem_mergeUris (merged redirectUris : List String) :
    uri ∈ mergeUris merged redirectUris ↔ uri ∈ merged ∨ uri ∈ redirectUris := by
  induction redirectUris generalizing merged with
  | nil => simp [mergeUris]
  | cons new redirectUris ih =>
    have hrest := ih (if merged.contains new then merged else merged ++ [new])
    rw [mergeUris, List.foldl_cons]
    rw [mergeUris] at hrest
    rw [hrest]
    split
    · rename_i hnew
      have hmem : new ∈ merged := List.contains_iff_mem.mp hnew
      constructor
      · rintro (h | h)
        · exact .inl h
        · exact .inr (List.mem_cons_of_mem new h)
      · rintro (h | h)
        · exact .inl h
        · rcases List.mem_cons.mp h with rfl | h
          · exact .inl hmem
          · exact .inr h
    · simp [or_assoc]

/-- What an instance without an entry serves is the persisted list. -/
theorem clientRedirects_of_uncached (persisted : Clients) (h : clients.get? clientId = none) :
    (clientRedirects clients persisted clientId).2 = persisted.get? clientId := by
  unfold clientRedirects
  rw [h]
  cases persisted.get? clientId <;> rfl

/-- The lists after a registration: the client's is merged anew. -/
theorem list_register (hs : step st (.register inst clientId redirectUris) = some st')
    (k : String) :
    st'.list k =
      if k = clientId then mergeUris (((st.clients inst).get? clientId).getD []) redirectUris
      else st.list k := by
  cases hs
  simp only [State.list, registerClientRedirects, HashMap.get?_insert]
  split <;> rfl

theorem registered_register (hs : step st (.register inst clientId redirectUris) = some st')
    (k : String) :
    st'.registered k =
      if k = clientId then st.registered clientId ++ redirectUris else st.registered k := by
  cases hs
  by_cases hk : k = clientId
  · subst hk
    simp
  · simp [hk]

theorem Kept.step (h : Kept st) (hg : Covered st l) (hs : step st l = some st') : Kept st' := by
  cases l with
  | register inst clientId redirectUris =>
    intro k uri huri
    rw [registered_register hs] at huri
    rw [list_register hs]
    by_cases hk : k = clientId
    · rw [if_pos hk] at huri ⊢
      rw [mem_mergeUris]
      rcases List.mem_append.mp huri with hold | hnew
      · exact hg uri (h clientId uri hold)
      · exact .inr hnew
    · rw [if_neg hk] at huri ⊢
      exact h k uri huri
  | lookup inst clientId =>
    cases hs
    exact h
  | restart inst =>
    cases hs
    exact h

/-- What is in memory or persisted was registered. -/
def Registered (st : State) : Prop :=
  (∀ clientId, ∀ uri ∈ st.list clientId, uri ∈ st.registered clientId) ∧
    ∀ inst clientId, ∀ uri ∈ ((st.clients inst).get? clientId).getD [],
      uri ∈ st.registered clientId

theorem registered_init : Registered init := by
  constructor
  · intro clientId uri h
    simp [State.list, init] at h
  · intro inst clientId uri h
    simp [init] at h

/-- The table of an instance takes over a list of URIs that were registered. -/
theorem Registered.cache (h : Registered st) {clients : Clients}
    (hclients : ∀ k, clients.get? k = (st.clients inst).get? k ∨
      clients.get? k = st.persisted.get? k ∨ clients.get? k = none) :
    Registered { st with clients := Function.update st.clients inst clients } := by
  refine ⟨h.1, fun i k uri huri => ?_⟩
  by_cases hi : i = inst
  · subst hi
    simp only [Function.update_self] at huri
    rcases hclients k with hold | hlist | hnone
    · rw [hold] at huri
      exact h.2 i k uri huri
    · rw [hlist] at huri
      exact h.1 k uri huri
    · rw [hnone] at huri
      cases huri
  · simp only [Function.update_of_ne hi] at huri
    exact h.2 i k uri huri

theorem Registered.step (h : Registered st) (hs : step st l = some st') : Registered st' := by
  cases l with
  | register inst clientId redirectUris =>
    have hmerged : ∀ uri ∈ mergeUris (((st.clients inst).get? clientId).getD []) redirectUris,
        uri ∈ st.registered clientId ++ redirectUris := fun uri huri => by
      rcases (mem_mergeUris _ _).mp huri with hold | hnew
      · exact List.mem_append_left _ (h.2 inst clientId uri hold)
      · exact List.mem_append_right _ hnew
    constructor
    · intro k uri huri
      rw [list_register hs] at huri
      rw [registered_register hs]
      by_cases hk : k = clientId
      · rw [if_pos hk] at huri ⊢
        exact hmerged uri huri
      · rw [if_neg hk] at huri ⊢
        exact h.1 k uri huri
    · intro i k uri huri
      rw [registered_register hs]
      -- An entry is the merged list or was there before.
      have hcases : (k = clientId ∧ ((st'.clients i).get? k).getD [] =
          mergeUris (((st.clients inst).get? clientId).getD []) redirectUris) ∨
          (st'.clients i).get? k = (st.clients i).get? k := by
        cases hs
        by_cases hi : i = inst
        · subst hi
          simp only [Function.update_self, registerClientRedirects]
          split
          · by_cases hk : k = clientId
            · subst hk
              exact .inl ⟨rfl, by simp⟩
            · exact .inr (HashMap.get?_insert_of_ne _ _ hk)
          · exact .inr rfl
        · simp [Function.update_of_ne hi]
      rcases hcases with ⟨rfl, hnew⟩ | hold
      · rw [hnew] at huri
        rw [if_pos rfl]
        exact hmerged uri huri
      · rw [hold] at huri
        have hreg := h.2 i k uri huri
        split
        · rename_i hk
          subst hk
          exact List.mem_append_left _ hreg
        · exact hreg
  | lookup inst clientId =>
    cases hs
    refine h.cache fun k => ?_
    unfold clientRedirects
    cases (st.clients inst).get? clientId with
    | some uris => exact .inl rfl
    | none =>
      cases hp : st.persisted.get? clientId with
      | none => exact .inl rfl
      | some uris =>
        simp only
        split
        · by_cases hk : k = clientId
          · subst hk
            exact .inr (.inl (by rw [hp, HashMap.get?_insert_self]))
          · exact .inl (HashMap.get?_insert_of_ne _ _ hk)
        · exact .inl rfl
  | restart inst =>
    cases hs
    exact h.cache fun k => .inr (.inr (HashMap.get?_empty k))

/-- A registration that leaves out a persisted URI loses it. -/
theorem not_kept_of_not_covered (h : Registered st) (hg : ¬ Covered st l)
    (hs : step st l = some st') : ¬ Kept st' := by
  cases l with
  | register inst clientId redirectUris =>
    simp only [Covered, not_forall, not_or] at hg
    obtain ⟨uri, hlist, hcached, hnew⟩ := hg
    intro hkept
    have hreg : uri ∈ st'.registered clientId := by
      rw [registered_register hs, if_pos rfl]
      exact List.mem_append_left _ (h.1 clientId uri hlist)
    have hmem := hkept clientId uri hreg
    rw [list_register hs, if_pos rfl, mem_mergeUris] at hmem
    exact hmem.elim hcached hnew
  | lookup inst clientId => exact absurd trivial hg
  | restart inst => exact absurd trivial hg

end Call

/-- **No redirect URI is lost** in any run in which every registration covers
the persisted list, and the first one that does not loses a URI. An instance
without an entry serves what is persisted. -/
theorem kept_iff_covered (st : State) :
    (system.Reach Covered init st → Kept st) ∧
      (∀ l st', system.Reach (fun _ _ => True) init st → ¬ Covered st l →
        step st l = some st' → ¬ Kept st') ∧
      ∀ inst clientId, (st.clients inst).get? clientId = none →
        (clientRedirects (st.clients inst) st.persisted clientId).2 =
          st.persisted.get? clientId := by
  refine ⟨fun hr => ?_, fun l st' hr hg hs => ?_, fun inst clientId h => ?_⟩
  · exact hr.invariant (fun clientId uri h => by simp [init] at h) fun _ _ _ h hg hs => h.step hg hs
  · exact not_kept_of_not_covered (hr.invariant registered_init fun _ _ _ h _ hs => h.step hs) hg hs
  · exact clientRedirects_of_uncached st.persisted h

/-- Instance 1 looks the client up before it registers a second URI. -/
def lookedUp : List Label :=
  [.register 0 "c" ["https://a/cb"], .lookup 1 "c", .register 1 "c" ["https://b/cb"]]

theorem kept_when_looked_up :
    ∃ st, Kept st ∧ st.list "c" = ["https://a/cb", "https://b/cb"] := by
  obtain ⟨st, hr, hp⟩ := System.exists_reach_of_run (S := system) (G := Covered) (s := init)
    (w := lookedUp) (p := fun st => decide (st.list "c" = ["https://a/cb", "https://b/cb"]))
    (by decide +kernel)
  exact ⟨st, (kept_iff_covered st).1 hr, of_decide_eq_true hp⟩

/-- Instance 1 does not. -/
def notLookedUp : List Label :=
  [.register 0 "c" ["https://a/cb"], .register 1 "c" ["https://b/cb"]]

theorem second_instance_overwrites :
    ¬ ∀ st, system.Reach (fun _ _ => True) init st → Kept st := by
  intro h
  obtain ⟨st, hr, hp⟩ := System.exists_reach_of_run (S := system) (G := fun _ _ => True)
    (s := init) (w := notLookedUp)
    (p := fun st => decide ("https://a/cb" ∈ st.registered "c") &&
      decide ("https://a/cb" ∉ st.list "c"))
    (by decide +kernel)
  simp only [Bool.and_eq_true, decide_eq_true_eq] at hp
  exact hp.2 (h st hr "c" _ hp.1)

end McpFramework.ClientRedirects
