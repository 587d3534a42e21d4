import Mathlib.Logic.Function.Basic

/-!
# Lib — Transition

Labelled transition systems with an executable step, their guarded runs, and
the one induction every safety result of such a system rests on.

A *guard* restricts the runs that are looked at: a statement about "every run in
which no lock lapses" is one about `Reach G`, with `G` saying of a state
and a label that the step is one of those runs'. The guard sees the state
BEFORE the step only.
-/

namespace McpFramework.Lib

/-- A labelled transition system. `step s l` is `none` when `l` is not
enabled in `s`; what is left open by the label (who moves, what the
environment answers) is in the label, so the step itself is a function. -/
structure System (σ ι : Type*) where
  step : σ → ι → Option σ

namespace System

variable {σ ι : Type*} (S : System σ ι)

/-- The states reached from `s₀` by steps that all meet the guard. -/
inductive Reach (G : σ → ι → Prop) (s₀ : σ) : σ → Prop
  | refl : Reach G s₀ s₀
  | step {s t : σ} {l : ι} : Reach G s₀ s → G s l → S.step s l = some t → Reach G s₀ t

variable {S}

/-- **The invariant rule**: what holds at first and is kept by every guarded
step holds of every state reached. -/
theorem Reach.invariant {G : σ → ι → Prop} {I : σ → Prop} {s₀ s : σ}
    (hr : S.Reach G s₀ s) (h₀ : I s₀)
    (hstep : ∀ s l t, I s → G s l → S.step s l = some t → I t) : I s := by
  induction hr with
  | refl => exact h₀
  | step _ hg hs ih => exact hstep _ _ _ ih hg hs

/-- Fewer restrictions, more runs. -/
theorem Reach.mono {G G' : σ → ι → Prop} {s₀ s : σ} (h : ∀ s l, G s l → G' s l)
    (hr : S.Reach G s₀ s) : S.Reach G' s₀ s := by
  induction hr with
  | refl => exact .refl
  | step _ hg hs ih => exact .step ih (h _ _ hg) hs

theorem Reach.trans {G : σ → ι → Prop} {s₀ s t : σ} (h : S.Reach G s₀ s)
    (h' : S.Reach G s t) : S.Reach G s₀ t := by
  induction h' with
  | refl => exact h
  | step _ hg hs ih => exact .step ih hg hs

variable (S)

/-- Run a schedule, checking the guard before each step. -/
def run (G : σ → ι → Prop) [∀ s l, Decidable (G s l)] : σ → List ι → Option σ
  | s, [] => some s
  | s, l :: ls => if G s l then (S.step s l).bind fun t => run G t ls else none

variable {S}

theorem reach_of_run {G : σ → ι → Prop} [∀ s l, Decidable (G s l)] {s t : σ} {ls : List ι}
    (h : S.run G s ls = some t) : S.Reach G s t := by
  induction ls generalizing s with
  | nil =>
    simp only [run, Option.some.injEq] at h
    subst h
    exact .refl
  | cons l ls ih =>
    simp only [run] at h
    split at h
    · rename_i hg
      obtain ⟨u, hu, hrest⟩ := Option.bind_eq_some_iff.mp h
      exact Reach.trans (.step .refl hg hu) (ih hrest)
    · cases h

/-- What every step of a schedule keeps, the schedule keeps. -/
theorem run_invariant {G : σ → ι → Prop} [∀ s l, Decidable (G s l)] {I : σ → Prop} {s t : σ}
    {w : List ι} (h : S.run G s w = some t) (h₀ : I s)
    (hstep : ∀ l ∈ w, ∀ s t, I s → S.step s l = some t → I t) : I t := by
  induction w generalizing s with
  | nil =>
    simp only [run, Option.some.injEq] at h
    subst h
    exact h₀
  | cons l w ih =>
    simp only [run] at h
    split at h
    · obtain ⟨u, hu, hrest⟩ := Option.bind_eq_some_iff.mp h
      exact ih hrest (hstep l (List.mem_cons_self ..) s u h₀ hu)
        fun l' hl' => hstep l' (List.mem_cons_of_mem l hl')
    · cases h

/-- A schedule whose last state passes a test exhibits a reachable state
that does. The test and the run are evaluated together, so a concrete trace
is one `decide`. -/
theorem exists_reach_of_run {G : σ → ι → Prop} [∀ s l, Decidable (G s l)] {s : σ}
    {w : List ι} {p : σ → Bool} (h : (S.run G s w).any p = true) :
    ∃ t, S.Reach G s t ∧ p t = true := by
  cases hr : S.run G s w with
  | none => simp [hr] at h
  | some t => exact ⟨t, reach_of_run hr, by simpa [hr] using h⟩

/-- The last state of a schedule that runs through. -/
theorem reach_get {G : σ → ι → Prop} [∀ s l, Decidable (G s l)] {s : σ} {w : List ι}
    (h : (S.run G s w).isSome = true) : S.Reach G s ((S.run G s w).get h) :=
  reach_of_run (Option.some_get h).symm

end System

/-! ## Point updates

The threads and instances of a system are functions of their index; these
two facts about `Function.update` are what its step lemmas use of them. -/

theorem forall_update_iff {ι : Type*} [DecidableEq ι] {β : Type*} {f : ι → β} {i : ι}
    {b : β} {P : ι → β → Prop} :
    (∀ j, P j (Function.update f i b j)) ↔ P i b ∧ ∀ j, j ≠ i → P j (f j) := by
  constructor
  · intro h
    refine ⟨by simpa using h i, fun j hj => ?_⟩
    simpa [Function.update_of_ne hj] using h j
  · rintro ⟨hi, h⟩ j
    by_cases hj : j = i
    · subst hj
      simpa using hi
    · simpa [Function.update_of_ne hj] using h j hj

end McpFramework.Lib
