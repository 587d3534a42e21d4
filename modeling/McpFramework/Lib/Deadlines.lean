import Mathlib.Data.Option.Basic

/-!
# Lib — Deadlines

A value with an optional deadline, read at a moment: it is there up to its
deadline and gone after it. What is read later depends on what is read now and
on the deadline of that alone (`read_later`, `left_later`).
-/

namespace McpFramework.Lib.Deadline

variable {V : Type*}

/-- The deadline has passed. -/
def past (now : Nat) (deadline : Option Nat) : Bool := deadline.any (· < now)

/-- The value, unless its deadline has passed. -/
def read (now : Nat) (deadline : Option Nat) (value : Option V) : Option V :=
  if past now deadline then none else value

/-- The deadline of a value that is there. -/
def left (now : Nat) (deadline : Option Nat) (value : Option V) : Option Nat :=
  if (read now deadline value).isSome then deadline else none

variable {now : Nat} {deadline : Option Nat} {value : Option V}

theorem past_mono {now' : Nat} (h : past now deadline = true) (hle : now ≤ now') :
    past now' deadline = true := by
  cases deadline with
  | none => cases h
  | some d =>
    have hd : d < now := of_decide_eq_true h
    exact decide_eq_true (by omega)

theorem not_past_of_le (h : ∀ d, deadline = some d → now ≤ d) : past now deadline = false := by
  cases deadline with
  | none => rfl
  | some d =>
    have hd := h d rfl
    exact decide_eq_false (by omega)

theorem le_of_not_past (h : past now deadline = false) {d : Nat} (hd : deadline = some d) :
    now ≤ d := by
  rw [hd] at h
  have hnot : ¬ d < now := of_decide_eq_false h
  omega

theorem read_of_not_past (h : past now deadline = false) : read now deadline value = value := by
  rw [read, h]
  rfl

theorem read_of_past (h : past now deadline = true) : read now deadline value = none := by
  rw [read, h]
  rfl

theorem read_none (now : Nat) (deadline : Option Nat) :
    read now deadline (none : Option V) = none :=
  ite_self none

/-- A value without a deadline stays. -/
theorem read_endless (now : Nat) (value : Option V) : read now none value = value := rfl

theorem left_endless (now : Nat) (value : Option V) : left now none value = none :=
  ite_self none

theorem read_map {W : Type*} (now : Nat) (deadline : Option Nat) (f : V → W) (value : Option V) :
    read now deadline (value.map f) = (read now deadline value).map f := by
  unfold read
  cases past now deadline <;> rfl

theorem left_map {W : Type*} (now : Nat) (deadline : Option Nat) (f : V → W) (value : Option V) :
    left now deadline (value.map f) = left now deadline value := by
  rw [left, read_map, Option.isSome_map]
  rfl

/-- What is read is the value. -/
theorem eq_of_read {v : V} (h : read now deadline value = some v) : value = some v := by
  unfold read at h
  split at h
  · cases h
  · exact h

theorem left_of_absent (h : read now deadline value = none) : left now deadline value = none := by
  rw [left, h]
  rfl

theorem left_of_present {v : V} (h : read now deadline value = some v) :
    left now deadline value = deadline := by
  rw [left, h]
  rfl

/-- **Later** is decided by what is read now. -/
theorem read_later {now' : Nat} (hle : now ≤ now') (deadline : Option Nat) (value : Option V) :
    read now' deadline value =
      read now' (left now deadline value) (read now deadline value) := by
  cases hread : read now deadline value with
  | some v => rw [left_of_present hread, eq_of_read hread]
  | none =>
    rw [left_of_absent hread]
    show _ = none
    cases hpast : past now deadline with
    | true => exact read_of_past (past_mono hpast hle)
    | false =>
      rw [read_of_not_past hpast] at hread
      rw [hread]
      exact read_none now' deadline

theorem left_later {now' : Nat} (hle : now ≤ now') (deadline : Option Nat) (value : Option V) :
    left now' deadline value =
      left now' (left now deadline value) (read now deadline value) := by
  rw [left, read_later hle]
  cases hread : read now deadline value with
  | some v => rw [left_of_present hread, left]
  | none =>
    rw [left_of_absent hread]
    rfl

end McpFramework.Lib.Deadline
