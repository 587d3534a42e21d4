import Mathlib.Logic.Function.Basic

/-!
# Lib — Mutex

What a lock says about the program counters of its users. `Guards holder inside
pc` says that a user whose counter is inside the section the lock protects is
its holder; the rules move one user at a time. The holder may be somewhere else:
one lock protects the sections of several systems that know nothing of each
other. Where the lock has no other users, the holder is inside (`Exact`), and
whoever waits for it waits for a user who can go on.
-/

namespace McpFramework.Lib

variable {τ α : Type*} {inside : α → Prop} {pc : τ → α} {holder : Option τ} {t u : τ} {a : α}

/-- Who is inside the section is the holder. -/
def Guards (holder : Option τ) (inside : α → Prop) (pc : τ → α) : Prop :=
  ∀ t, inside (pc t) → holder = some t

namespace Guards

/-- Mutual exclusion. -/
theorem unique (h : Guards holder inside pc) (ht : inside (pc t)) (hu : inside (pc u)) :
    t = u := by
  have h₁ := h t ht
  have h₂ := h u hu
  rw [h₁] at h₂
  exact Option.some.inj h₂

theorem outside_of_ne (h : Guards holder inside pc) (ht : inside (pc t)) (hne : u ≠ t) :
    ¬ inside (pc u) := fun hu => hne (h.unique hu ht)

theorem outside_of_free (h : Guards none inside pc) (t : τ) : ¬ inside (pc t) := fun ht => by
  have := h t ht
  cases this

theorem holder_eq (h : Guards holder inside pc) (ht : inside (pc t)) : holder = some t :=
  h t ht

/-- Nobody is inside, whoever holds the lock. -/
theorem of_outside (h : ∀ t, ¬ inside (pc t)) : Guards holder inside pc :=
  fun t ht => absurd ht (h t)

/-- The holder is outside, and so is everybody. -/
theorem outside_of_holder (h : Guards (some t) inside pc) (ht : ¬ inside (pc t)) (u : τ) :
    ¬ inside (pc u) := fun hu => by
  cases h u hu
  exact ht hu

variable [DecidableEq τ]

/-- A user moves without crossing the border of the section. -/
theorem move (h : Guards holder inside pc) (ha : inside a ↔ inside (pc t)) :
    Guards holder inside (Function.update pc t a) := by
  intro u
  by_cases hu : u = t
  · subst hu
    rw [Function.update_self]
    exact fun hin => h u (ha.mp hin)
  · rw [Function.update_of_ne hu]
    exact h u

/-- A user goes outside, whatever becomes of the lock. -/
theorem depart (h : Guards holder inside pc) (ha : ¬ inside a) :
    Guards holder inside (Function.update pc t a) := by
  intro u
  by_cases hu : u = t
  · subst hu
    rw [Function.update_self]
    exact fun hin => absurd hin ha
  · rw [Function.update_of_ne hu]
    exact h u

/-- A user enters with the free lock. -/
theorem enter (h : Guards none inside pc) :
    Guards (some t) inside (Function.update pc t a) := by
  intro u
  by_cases hu : u = t
  · subst hu
    exact fun _ => rfl
  · rw [Function.update_of_ne hu]
    exact fun hin => absurd hin (h.outside_of_free u)

/-- The holder leaves. -/
theorem leave (h : Guards holder inside pc) (ht : inside (pc t)) (ha : ¬ inside a) :
    Guards none inside (Function.update pc t a) := by
  intro u
  by_cases hu : u = t
  · subst hu
    rw [Function.update_self]
    exact fun hin => absurd hin ha
  · rw [Function.update_of_ne hu]
    exact fun hin => absurd hin (h.outside_of_ne ht hu)

end Guards

/-- Who is inside the section is the holder, and the holder is inside. -/
def Exact (holder : Option τ) (inside : α → Prop) (pc : τ → α) : Prop :=
  ∀ t, inside (pc t) ↔ holder = some t

namespace Exact

theorem guards (h : Exact holder inside pc) : Guards holder inside pc := fun t => (h t).mp

theorem of_free (h : ∀ t, ¬ inside (pc t)) : Exact none inside pc :=
  fun t => ⟨fun ht => absurd ht (h t), fun ht => by cases ht⟩

variable [DecidableEq τ]

theorem move (h : Exact holder inside pc) (ha : inside a ↔ inside (pc t)) :
    Exact holder inside (Function.update pc t a) := by
  intro u
  by_cases hu : u = t
  · subst hu
    rw [Function.update_self]
    exact ha.trans (h u)
  · rw [Function.update_of_ne hu]
    exact h u

theorem enter (h : Exact none inside pc) (ha : inside a) :
    Exact (some t) inside (Function.update pc t a) := by
  intro u
  by_cases hu : u = t
  · subst hu
    rw [Function.update_self]
    exact ⟨fun _ => rfl, fun _ => ha⟩
  · rw [Function.update_of_ne hu]
    refine ⟨fun hin => absurd hin (h.guards.outside_of_free u), fun heq => ?_⟩
    cases heq
    exact absurd rfl hu

theorem leave (h : Exact holder inside pc) (ht : inside (pc t)) (ha : ¬ inside a) :
    Exact none inside (Function.update pc t a) := by
  intro u
  refine ⟨fun hin => ?_, fun heq => by cases heq⟩
  by_cases hu : u = t
  · subst hu
    rw [Function.update_self] at hin
    exact absurd hin ha
  · rw [Function.update_of_ne hu] at hin
    exact absurd hin (h.guards.outside_of_ne ht hu)

end Exact

/-- How a user's step from `a` to `b` moves the holder. -/
inductive Moves (inside : α → Prop) (t : τ) (a b : α) : Option τ → Option τ → Prop
  | stay {holder : Option τ} (h : inside b ↔ inside a) : Moves inside t a b holder holder
  | enter : Moves inside t a b none (some t)
  | leave {holder : Option τ} (ha : inside a) (hb : ¬ inside b) : Moves inside t a b holder none

/-- Only a free lock and one's own change hands. -/
theorem Moves.changes {b : α} {holder' : Option τ} (h : Moves inside t a b holder holder') :
    holder' = holder ∨ holder = none ∨ inside a := by
  cases h with
  | stay _ => exact .inl rfl
  | enter => exact .inr (.inl rfl)
  | leave ha _ => exact .inr (.inr ha)

/-- What is inside may be told from something else. -/
theorem Moves.congr {β : Type*} {inside' : β → Prop} {b : α} {a' b' : β} {holder' : Option τ}
    (h : Moves inside t a b holder holder') (ha : inside' a' ↔ inside a)
    (hb : inside' b' ↔ inside b) : Moves inside' t a' b' holder holder' := by
  cases h with
  | stay hab => exact .stay (hb.trans (hab.trans ha.symm))
  | enter => exact .enter
  | leave hin hout => exact .leave (ha.mpr hin) (mt hb.mp hout)

/-- Who is inside afterwards has the lock. -/
theorem Moves.held {b : α} {holder' : Option τ} (h : Moves inside t a b holder holder')
    (ha : inside a → holder = some t) (hb : inside b) : holder' = some t := by
  cases h with
  | stay hab => exact ha (hab.mp hb)
  | enter => rfl
  | leave _ hout => exact absurd hb hout

theorem Guards.step [DecidableEq τ] {holder' : Option τ} (h : Guards holder inside pc)
    (hm : Moves inside t (pc t) a holder holder') :
    Guards holder' inside (Function.update pc t a) := by
  cases hm with
  | stay hb => exact h.move hb
  | enter => exact h.enter
  | leave ha hb => exact h.leave ha hb

end McpFramework.Lib
