import Mathlib.Data.List.MinMax
import Mathlib.Logic.Relation
import Mathlib.Order.Lattice
import McpFramework.Lib.HashMap

/-!
# Lib — Eviction

Tables that are kept below a cap by evicting entries of least rank, one a round.
Among entries of one rank any may go, as with a map that is iterated in no
particular order.
-/

namespace McpFramework.Lib.HashMap

variable {K V β : Type*} [DecidableEq K] [LinearOrder β] {rank : V → β} {cap : Nat}
  {m m' : HashMap K V} {k : K} {v : V}

/-! ## One round -/

/-- An entry of a table, with none below it. -/
structure Least (rank : V → β) (m : HashMap K V) (k : K) (v : V) : Prop where
  entry : m.get? k = some v
  least : ∀ k' v', m.get? k' = some v' → rank v ≤ rank v'

/-- A table that is not below its cap loses an entry of least rank. -/
def Evicts (rank : V → β) (cap : Nat) (m m' : HashMap K V) : Prop :=
  cap ≤ m.len ∧ ∃ k v, Least rank m k v ∧ m' = m.remove k

theorem Evicts.len (h : Evicts rank cap m m') : m'.len + 1 = m.len := by
  obtain ⟨-, k, v, hleast, rfl⟩ := h
  exact len_remove hleast.entry

/-- There is no infinite sequence of rounds. -/
theorem evicts_wellFounded (rank : V → β) (cap : Nat) :
    WellFounded fun m' m : HashMap K V => Evicts rank cap m m' := by
  refine Subrelation.wf ?_ (measure fun m : HashMap K V => m.len).wf
  intro m' m h
  have hlen := h.len
  show m'.len < m.len
  omega

theorem least_of_argmin {e : Sigma fun _ : K => V}
    (h : (m.entries.argmin fun e => rank e.2) = some e) : Least rank m e.1 e.2 := by
  refine ⟨(mem_entries_iff m e.1 e.2).mp (List.argmin_mem h), fun k' v' hentry => ?_⟩
  have hmem := (mem_entries_iff m k' v').mpr hentry
  exact @List.le_of_mem_argmin _ _ _ (fun e : Sigma fun _ : K => V => rank e.2) _ _ _ hmem h

theorem exists_least (rank : V → β) (h : m.len ≠ 0) : ∃ k v, Least rank m k v := by
  cases hmin : m.entries.argmin fun e => rank e.2 with
  | none =>
    rw [List.argmin_eq_none] at hmin
    exact absurd (List.length_eq_zero_iff.mpr hmin) h
  | some e => exact ⟨e.1, e.2, least_of_argmin hmin⟩

/-! ## Until it is below the cap -/

/-- The evictions of a table end in this one. -/
def Settles (rank : V → β) (cap : Nat) (m m' : HashMap K V) : Prop :=
  Relation.ReflTransGen (Evicts rank cap) m m' ∧ ∀ m'', ¬ Evicts rank cap m' m''

theorem Settles.refl (h : m.len < cap) : Settles rank cap m m :=
  ⟨.refl, fun _ hnext => absurd hnext.1 (Nat.not_le_of_lt h)⟩

theorem Settles.of_empty (h : m.len = 0) : Settles rank cap m m := by
  refine ⟨.refl, fun next hnext => ?_⟩
  have hlen := hnext.len
  omega

theorem Settles.head {m'' : HashMap K V} (h : Evicts rank cap m m') (hs : Settles rank cap m' m'') :
    Settles rank cap m m'' :=
  ⟨.head h hs.1, hs.2⟩

/-- They end below the cap. -/
theorem Settles.len (hcap : 0 < cap) (h : Settles rank cap m m') : m'.len < cap := by
  by_contra hfull
  have hne : m'.len ≠ 0 := by omega
  obtain ⟨k, v, hleast⟩ := exists_least rank hne
  exact h.2 _ ⟨Nat.le_of_not_lt hfull, k, v, hleast, rfl⟩

/-- A table within its cap is left alone, or it is full and loses one entry of
least rank. -/
theorem Settles.cases (hcap : 0 < cap) (hle : m.len ≤ cap) (h : Settles rank cap m m') :
    m' = m ∧ m.len < cap ∨ m.len = cap ∧ ∃ k v, Least rank m k v ∧ m' = m.remove k := by
  rcases Relation.ReflTransGen.cases_head h.1 with rfl | ⟨next, hnext, hrest⟩
  · exact .inl ⟨rfl, h.len hcap⟩
  · have hlen := hnext.len
    have hbelow : next.len < cap := by omega
    rcases Relation.ReflTransGen.cases_head hrest with rfl | ⟨more, hmore, -⟩
    · exact .inr ⟨Nat.le_antisymm hle hnext.1, hnext.2⟩
    · exact absurd hmore.1 (Nat.not_le_of_lt hbelow)

end McpFramework.Lib.HashMap
