import Mathlib.Data.List.Infix

/-!
# Lib — History

A log of events with the newest first, in which each event has its grounds in the
events before it.
-/

namespace McpFramework.Lib.History

variable {α : Type*} {P : List α → α → Prop} {log earlier : List α} {e : α}

/-- Every event has its grounds in what came before it. -/
def Explained (P : List α → α → Prop) : List α → Prop
  | [] => True
  | e :: earlier => P earlier e ∧ Explained P earlier

/-- What an event found. -/
theorem Explained.of_suffix (h : Explained P log) (hsuffix : e :: earlier <:+ log) :
    P earlier e := by
  induction log with
  | nil =>
    have hnil := List.suffix_nil.mp hsuffix
    cases hnil
  | cons x log ih =>
    rcases List.suffix_cons_iff.mp hsuffix with heq | hsuffix
    · obtain ⟨rfl, rfl⟩ := List.cons.inj heq
      exact h.1
    · exact ih h.2 hsuffix

/-- An event of the log happened at some point of it. -/
theorem exists_suffix (h : e ∈ log) : ∃ earlier, e :: earlier <:+ log := by
  obtain ⟨later, earlier, rfl⟩ := List.append_of_mem h
  exact ⟨earlier, List.suffix_append later (e :: earlier)⟩

/-- Events that need no grounds may come at any time. -/
theorem Explained.append {new : List α} (h : Explained P log)
    (hnew : ∀ e ∈ new, ∀ log, P log e) : Explained P (new ++ log) := by
  induction new with
  | nil => exact h
  | cons e new ih =>
    obtain ⟨he, hnew⟩ := List.forall_mem_cons.mp hnew
    exact ⟨he (new ++ log), ih hnew⟩

/-- Of two events one came first. -/
theorem before_or_after {e' : α} (h : e ∈ log) (h' : e' ∈ log) :
    e = e' ∨ (∃ earlier, e :: earlier <:+ log ∧ e' ∈ earlier) ∨
      ∃ earlier, e' :: earlier <:+ log ∧ e ∈ earlier := by
  induction log with
  | nil => cases h
  | cons x log ih =>
    rcases List.mem_cons.mp h with rfl | hmem <;> rcases List.mem_cons.mp h' with rfl | hmem'
    · exact Or.inl rfl
    · exact Or.inr (Or.inl ⟨log, List.suffix_refl _, hmem'⟩)
    · exact Or.inr (Or.inr ⟨log, List.suffix_refl _, hmem⟩)
    · rcases ih hmem hmem' with heq | ⟨earlier, hsuffix, hearlier⟩ | ⟨earlier, hsuffix, hearlier⟩
      · exact Or.inl heq
      · exact Or.inr (Or.inl ⟨earlier, hsuffix.trans (List.suffix_cons x log), hearlier⟩)
      · exact Or.inr (Or.inr ⟨earlier, hsuffix.trans (List.suffix_cons x log), hearlier⟩)

end McpFramework.Lib.History
