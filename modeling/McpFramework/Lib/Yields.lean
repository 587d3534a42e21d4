import Mathlib.Logic.Basic

/-!
# Lib — Yields

Computations that fail outside a condition: what they yield under it, composed
along `map` and `bind` so that the condition of a whole is read off its parts.
-/

namespace McpFramework.Lib

variable {α β : Type*} {x : Option α} {P Q : Prop} {v : α}

/-- `x` is `some v` under the condition and fails outside it. -/
structure Yields (x : Option α) (P : Prop) (v : α) : Prop where
  value : P → x = some v
  failure : ¬ P → x = none

namespace Yields

theorem isSome_iff (h : Yields x P v) : x.isSome = true ↔ P := by
  by_cases hp : P
  · simp [h.value hp, hp]
  · simp [h.failure hp, hp]

theorem pure (v : α) : Yields (some v) True v := ⟨fun _ => rfl, fun h => absurd trivial h⟩

theorem of_ite [Decidable P] (v : α) : Yields (if P then some v else none) P v :=
  ⟨fun hp => if_pos hp, fun hp => if_neg hp⟩

theorem congr (h : Yields x P v) (hpq : P ↔ Q) : Yields x Q v :=
  ⟨fun hq => h.value (hpq.mpr hq), fun hq => h.failure fun hp => hq (hpq.mp hp)⟩

theorem map (h : Yields x P v) (f : α → β) : Yields (x.map f) P (f v) :=
  ⟨fun hp => by rw [h.value hp, Option.map_some], fun hp => by rw [h.failure hp, Option.map_none]⟩

/-- The second computation only matters where the first one succeeds. -/
theorem bind {f : α → Option β} {w : β} (h : Yields x P v) (h' : P → Yields (f v) Q w) :
    Yields (x.bind f) (P ∧ Q) w := by
  refine ⟨fun hpq => ?_, fun hpq => ?_⟩
  · rw [h.value hpq.1, Option.bind_some, (h' hpq.1).value hpq.2]
  · by_cases hp : P
    · rw [h.value hp, Option.bind_some, (h' hp).failure fun hq => hpq ⟨hp, hq⟩]
    · rw [h.failure hp, Option.bind_none]

end Yields
end McpFramework.Lib
