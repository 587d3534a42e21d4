import Mathlib.Data.List.Nodup
import McpFramework.Lib.Transition

/-!
# Lib — Once

Workers go through items and act on an item when they are the first to meet its key.
What has been met is shared; the action comes later, so that in between other workers
may meet the key, and pass the item by before anything has been done about it.
-/

namespace McpFramework.Lib.Once

variable {α κ : Type*}

/-- Where a worker is. -/
inductive Pc (α : Type*) where
  | idle
  | meeting (items : List α)
  /-- The key of `item` is new, and nothing has been done about it. -/
  | acting (item : α) (rest : List α)

/-- The items that a worker has not met. -/
def Pc.ahead : Pc α → List α
  | .idle => []
  | .meeting items => items
  | .acting _ rest => rest

def Pc.held : Pc α → List α
  | .idle => []
  | .meeting items => items
  | .acting item rest => item :: rest

structure State (α κ : Type*) where
  seen : List κ
  pc : Nat → Pc α
  /-- The items that were acted on, the last one first. -/
  acted : List α
  /-- All that workers were ever handed. -/
  handed : List α

inductive Label (α : Type*) where
  | hand (worker : Nat) (items : List α)
  | run (worker : Nat)

def init (α κ : Type*) : State α κ := ⟨[], fun _ => .idle, [], []⟩

variable (key : α → κ)

def step [DecidableEq κ] (s : State α κ) : Label α → Option (State α κ)
  | .hand worker items =>
    match s.pc worker with
    | .idle => some { s with
        pc := Function.update s.pc worker (.meeting items)
        handed := items ++ s.handed }
    | _ => none
  | .run worker =>
    match s.pc worker with
    | .idle => none
    | .meeting [] => some { s with pc := Function.update s.pc worker .idle }
    | .meeting (item :: rest) =>
      if key item ∈ s.seen then some { s with pc := Function.update s.pc worker (.meeting rest) }
      else some { s with
        pc := Function.update s.pc worker (.acting item rest)
        seen := key item :: s.seen }
    | .acting item rest => some { s with
        pc := Function.update s.pc worker (.meeting rest)
        acted := item :: s.acted }

def system [DecidableEq κ] : System (State α κ) (Label α) := ⟨step key⟩

/-- Some worker is about to act on an item with the key `k`. -/
def Pending (s : State α κ) (k : κ) : Prop :=
  ∃ worker item rest, s.pc worker = .acting item rest ∧ key item = k

/-- Each key that was met is accounted for once: an item was acted on, or one worker is
about to act. -/
structure Inv (s : State α κ) : Prop where
  nodup : (s.acted.map key).Nodup
  met : ∀ k, k ∈ s.seen ↔ k ∈ s.acted.map key ∨ Pending key s k
  fresh : ∀ worker item rest, s.pc worker = .acting item rest → key item ∉ s.acted.map key
  apart : ∀ worker worker' item item' rest rest', s.pc worker = .acting item rest →
    s.pc worker' = .acting item' rest' → key item = key item' → worker = worker'
  handed : ∀ item ∈ s.handed, key item ∈ s.seen ∨ ∃ worker, item ∈ (s.pc worker).ahead
  acted : ∀ item ∈ s.acted, item ∈ s.handed
  held : ∀ worker, ∀ item ∈ (s.pc worker).held, item ∈ s.handed

theorem inv_init : Inv key (init α κ) where
  nodup := List.nodup_nil
  met k := by
    constructor
    · intro h
      cases h
    · rintro (h | ⟨worker, item, rest, hpc, -⟩)
      · cases h
      · cases hpc
  fresh worker item rest hpc := by cases hpc
  apart worker worker' item item' rest rest' hpc := by cases hpc
  handed item h := by cases h
  acted item h := by cases h
  held worker item h := by cases h

section Step

variable {key} {s : State α κ} {worker : Nat} {pc : Pc α}

def Pc.isActing : Pc α → Bool
  | .acting _ _ => true
  | _ => false

/-- Who is about to act, when a worker has moved that was not and is not. -/
theorem acting_update (hold : (s.pc worker).isActing = false) (hnew : pc.isActing = false)
    {other : Nat} {item : α} {rest : List α} :
    Function.update s.pc worker pc other = .acting item rest ↔ s.pc other = .acting item rest := by
  by_cases hother : other = worker
  · subst hother
    rw [Function.update_self]
    constructor
    · rintro rfl
      cases hnew
    · intro h
      rw [h] at hold
      cases hold
  · rw [Function.update_of_ne hother]

/-- A worker moves on without an action: what it leaves behind has been met. -/
theorem Inv.move (h : Inv key s) {handed : List α} (hold : (s.pc worker).isActing = false)
    (hnew : pc.isActing = false)
    (hahead : ∀ item ∈ (s.pc worker).ahead, key item ∈ s.seen ∨ item ∈ pc.ahead)
    (hhanded : ∀ item ∈ handed, item ∈ s.handed ∨ item ∈ pc.ahead)
    (hsub : ∀ item ∈ s.handed, item ∈ handed) (hheld : ∀ item ∈ pc.held, item ∈ handed) :
    Inv key { s with pc := Function.update s.pc worker pc, handed := handed } where
  nodup := h.nodup
  met k := by
    have hpending : Pending key
        { s with pc := Function.update s.pc worker pc, handed := handed } k ↔ Pending key s k := by
      simp only [Pending, acting_update hold hnew]
    rw [hpending]
    exact h.met k
  fresh other item rest hpc := h.fresh other item rest ((acting_update hold hnew).mp hpc)
  apart other other' item item' rest rest' hpc hpc' :=
    h.apart other other' item item' rest rest' ((acting_update hold hnew).mp hpc)
      ((acting_update hold hnew).mp hpc')
  handed item hitem := by
    rcases hhanded item hitem with hin | hin
    · rcases h.handed item hin with hseen | ⟨other, hother⟩
      · exact .inl hseen
      · by_cases heq : other = worker
        · subst heq
          rcases hahead item hother with hseen | hnext
          · exact .inl hseen
          · exact .inr ⟨other, by simpa using hnext⟩
        · exact .inr ⟨other, by simpa [heq] using hother⟩
    · exact .inr ⟨worker, by simpa using hin⟩
  acted item hitem := hsub item (h.acted item hitem)
  held other item hitem := by
    by_cases heq : other = worker
    · subst heq
      exact hheld item (by simpa using hitem)
    · exact hsub item (h.held other item (by simpa [heq] using hitem))

/-- A worker is the first to meet a key. -/
theorem Inv.meet (h : Inv key s) {item : α} {rest : List α}
    (hpc : s.pc worker = .meeting (item :: rest)) (hnew : key item ∉ s.seen) :
    Inv key { s with
      pc := Function.update s.pc worker (.acting item rest)
      seen := key item :: s.seen } where
  nodup := h.nodup
  met k := by
    have hpending : Pending key { s with
          pc := Function.update s.pc worker (.acting item rest)
          seen := key item :: s.seen } k ↔ key item = k ∨ Pending key s k := by
      constructor
      · rintro ⟨other, item', rest', hother, rfl⟩
        by_cases heq : other = worker
        · subst heq
          simp only [Function.update_self] at hother
          cases hother
          exact .inl rfl
        · simp only [Function.update_of_ne heq] at hother
          exact .inr ⟨other, item', rest', hother, rfl⟩
      · rintro (rfl | ⟨other, item', rest', hother, rfl⟩)
        · exact ⟨worker, item, rest, Function.update_self .., rfl⟩
        · have hne : other ≠ worker := by
            rintro rfl
            rw [hpc] at hother
            cases hother
          exact ⟨other, item', rest', (Function.update_of_ne hne ..).trans hother, rfl⟩
    rw [hpending, List.mem_cons, h.met k, or_left_comm, eq_comm]
  fresh other item' rest' hother := by
    by_cases heq : other = worker
    · subst heq
      simp only [Function.update_self] at hother
      cases hother
      exact fun hacted => hnew ((h.met _).mpr (.inl hacted))
    · exact h.fresh other item' rest' ((Function.update_of_ne heq ..).symm.trans hother)
  apart other other' item' item'' rest' rest'' hpc' hpc'' hkey := by
    -- Nobody else was about to act on an item of a key that is new.
    have hothers : ∀ other ≠ worker, ∀ item' rest',
        s.pc other = .acting item' rest' → key item' ≠ key item := by
      intro other _ item' rest' hother he
      exact hnew ((h.met _).mpr (.inr ⟨other, item', rest', hother, he⟩))
    by_cases heq : other = worker <;> by_cases heq' : other' = worker
    · exact heq.trans heq'.symm
    · subst heq
      simp only [Function.update_self] at hpc'
      cases hpc'
      have hother := (Function.update_of_ne heq' ..).symm.trans hpc''
      exact absurd hkey.symm (hothers other' heq' _ _ hother)
    · subst heq'
      simp only [Function.update_self] at hpc''
      cases hpc''
      have hother := (Function.update_of_ne heq ..).symm.trans hpc'
      exact absurd hkey (hothers other heq _ _ hother)
    · exact h.apart other other' _ _ _ _ ((Function.update_of_ne heq ..).symm.trans hpc')
        ((Function.update_of_ne heq' ..).symm.trans hpc'') hkey
  handed item' hitem := by
    rcases h.handed item' hitem with hseen | ⟨other, hother⟩
    · exact .inl (List.mem_cons_of_mem _ hseen)
    · by_cases heq : other = worker
      · subst heq
        rw [hpc] at hother
        rcases List.mem_cons.mp hother with rfl | hrest
        · exact .inl List.mem_cons_self
        · exact .inr ⟨other, by simpa [Pc.ahead] using hrest⟩
      · exact .inr ⟨other, by simpa [heq] using hother⟩
  acted := h.acted
  held other item' hitem := by
    by_cases heq : other = worker
    · subst heq
      exact h.held other item' (by simpa [hpc, Pc.held] using hitem)
    · exact h.held other item' (by simpa [heq] using hitem)

/-- The action. -/
theorem Inv.act (h : Inv key s) {item : α} {rest : List α}
    (hpc : s.pc worker = .acting item rest) :
    Inv key { s with
      pc := Function.update s.pc worker (.meeting rest)
      acted := item :: s.acted } where
  nodup := by
    rw [List.map_cons]
    exact h.nodup.cons (h.fresh worker item rest hpc)
  met k := by
    rw [h.met k, List.map_cons, List.mem_cons]
    constructor
    · rintro (hacted | ⟨other, item', rest', hother, rfl⟩)
      · exact .inl (.inr hacted)
      · by_cases heq : other = worker
        · subst heq
          rw [hpc] at hother
          cases hother
          exact .inl (.inl rfl)
        · exact .inr ⟨other, item', rest', (Function.update_of_ne heq ..).trans hother, rfl⟩
    · rintro ((rfl | hacted) | ⟨other, item', rest', hother, rfl⟩)
      · exact .inr ⟨worker, item, rest, hpc, rfl⟩
      · exact .inl hacted
      · have hne : other ≠ worker := by
          rintro rfl
          simp only [Function.update_self] at hother
          cases hother
        exact .inr ⟨other, item', rest', (Function.update_of_ne hne ..).symm.trans hother, rfl⟩
  fresh other item' rest' hother := by
    have hne : other ≠ worker := by
      rintro rfl
      simp only [Function.update_self] at hother
      cases hother
    have hother' := (Function.update_of_ne hne ..).symm.trans hother
    rw [List.map_cons, List.mem_cons, not_or]
    refine ⟨fun he => hne ?_, h.fresh other item' rest' hother'⟩
    exact h.apart other worker item' item rest' rest hother' hpc he
  apart other other' item' item'' rest' rest'' hpc' hpc'' hkey := by
    have hne : ∀ other item' rest',
        Function.update s.pc worker (.meeting rest) other = .acting item' rest' →
          other ≠ worker := by
      rintro other item' rest' hother rfl
      simp only [Function.update_self] at hother
      cases hother
    have h₁ := hne other _ _ hpc'
    have h₂ := hne other' _ _ hpc''
    exact h.apart other other' _ _ _ _ ((Function.update_of_ne h₁ ..).symm.trans hpc')
      ((Function.update_of_ne h₂ ..).symm.trans hpc'') hkey
  handed item' hitem := by
    rcases h.handed item' hitem with hseen | ⟨other, hother⟩
    · exact .inl hseen
    · by_cases heq : other = worker
      · subst heq
        exact .inr ⟨other, by simpa [hpc, Pc.ahead] using hother⟩
      · exact .inr ⟨other, by simpa [heq] using hother⟩
  acted item' hitem := by
    rcases List.mem_cons.mp hitem with rfl | hacted
    · exact h.held worker item' (by rw [hpc]; exact List.mem_cons_self)
    · exact h.acted item' hacted
  held other item' hitem := by
    by_cases heq : other = worker
    · subst heq
      refine h.held other item' ?_
      rw [hpc]
      exact List.mem_cons_of_mem _ (by simpa [Pc.held] using hitem)
    · exact h.held other item' (by simpa [heq] using hitem)

theorem Inv.step [DecidableEq κ] {t : State α κ} {l : Label α} (h : Inv key s)
    (hs : (system key).step s l = some t) : Inv key t := by
  simp only [system, Once.step] at hs
  cases l with
  | hand worker items =>
    cases hpc : s.pc worker with
    | idle =>
      simp only [hpc, Option.some.injEq] at hs
      subst hs
      refine h.move (by rw [hpc]; rfl) rfl (by rw [hpc]; nofun) (fun item hitem => ?_)
        (fun item hitem => List.mem_append_right _ hitem) fun item hitem =>
          List.mem_append_left _ hitem
      exact (List.mem_append.mp hitem).symm
    | meeting items' => simp only [hpc, reduceCtorEq] at hs
    | acting item rest => simp only [hpc, reduceCtorEq] at hs
  | run worker =>
    cases hpc : s.pc worker with
    | idle => simp only [hpc, reduceCtorEq] at hs
    | meeting items =>
      have hheld := h.held worker
      rw [hpc] at hheld
      cases items with
      | nil =>
        simp only [hpc, Option.some.injEq] at hs
        subst hs
        exact h.move (by rw [hpc]; rfl) rfl (by rw [hpc]; nofun) (fun _ => .inl) (fun _ => id) nofun
      | cons item rest =>
        simp only [hpc] at hs
        split at hs
        · next hseen =>
          cases hs
          refine h.move (by rw [hpc]; rfl) rfl (fun item' hitem => ?_) (fun _ => .inl) (fun _ => id)
            fun item' hitem => hheld item' (List.mem_cons_of_mem _ hitem)
          rw [hpc] at hitem
          rcases List.mem_cons.mp hitem with rfl | hrest
          · exact .inl hseen
          · exact .inr hrest
        · next hseen =>
          cases hs
          exact h.meet hpc hseen
    | acting item rest =>
      simp only [hpc, Option.some.injEq] at hs
      subst hs
      exact h.act hpc

end Step

variable [DecidableEq κ] {key} {G : State α κ → Label α → Prop} {s : State α κ}

theorem inv_reach (hr : (system key).Reach G (init α κ) s) : Inv key s :=
  hr.invariant (inv_init key) fun _ _ _ h _ hs => h.step hs

/-- **Once for each key**: no two items of one key are acted on, none is acted on that was
not handed to a worker, and for every item that was, one of its key has been acted on, or
a worker is about to, or has the item still ahead. -/
theorem acted_once (hr : (system key).Reach G (init α κ) s) :
    (s.acted.map key).Nodup ∧ (∀ item ∈ s.acted, item ∈ s.handed) ∧
      ∀ item ∈ s.handed, key item ∈ s.acted.map key ∨ Pending key s (key item) ∨
        ∃ worker, item ∈ (s.pc worker).ahead := by
  have h := inv_reach hr
  refine ⟨h.nodup, h.acted, fun item hitem => ?_⟩
  rcases h.handed item hitem with hseen | hahead
  · rcases (h.met _).mp hseen with hacted | hpending
    · exact .inl hacted
    · exact .inr (.inl hpending)
  · exact .inr (.inr hahead)

end McpFramework.Lib.Once
