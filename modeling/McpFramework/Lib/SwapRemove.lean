import Mathlib.Data.List.Perm.Basic

/-!
# Lib — SwapRemove

Removal from a list by moving its last element into the gap, and removal of
several positions one after the other.

What moves comes from the end, so all that stands before the gap stays where it is:
from the largest position down, each of the others still means the same element.
-/

namespace McpFramework.Lib

variable {α : Type*} {l : List α} {i : Nat}

/-- The last element takes the place of the `i`-th, which has to be there. -/
def swapRemove (l : List α) (i : Nat) : Option (List α) :=
  match l.getLast? with
  | some last => if i < l.length then some (l.set i last).dropLast else none
  | none => none

/-! ## One removal -/

theorem swapRemove_concat (init : List α) (last : α) (i : Nat) :
    swapRemove (init ++ [last]) i =
      if i ≤ init.length then some (init.set i last) else none := by
  simp only [swapRemove, List.getLast?_concat, List.length_append, List.length_singleton,
    Nat.lt_succ_iff]
  split
  · rename_i hle
    rcases Nat.lt_or_eq_of_le hle with hlt | rfl
    · rw [List.set_append_left _ _ hlt, List.dropLast_concat]
    · rw [List.set_append_right _ _ (Nat.le_refl _), Nat.sub_self, List.set_cons_zero,
        List.dropLast_concat, List.set_eq_of_length_le (Nat.le_refl _)]
  · rfl

/-- One element goes, and what stands before it stays. -/
theorem swapRemove_of_lt (h : i < l.length) :
    ∃ left, swapRemove l i = some left ∧ l.Perm (l[i] :: left) ∧ left.take i = l.take i := by
  obtain ⟨init, last, rfl⟩ : ∃ init last, l = init ++ [last] := by
    rcases List.eq_nil_or_concat' l with rfl | hconcat
    · cases h
    · exact hconcat
  have hle : i ≤ init.length := by
    rw [List.length_append, List.length_singleton] at h
    exact Nat.le_of_lt_succ h
  refine ⟨init.set i last, by rw [swapRemove_concat, if_pos hle], ?_, ?_⟩
  · refine (List.perm_append_singleton last init).trans ?_
    rcases Nat.lt_or_eq_of_le hle with hlt | rfl
    · rw [List.getElem_append_left hlt]
      calc (last :: init).Perm (last :: init[i] :: init.eraseIdx i) :=
            (List.getElem_cons_eraseIdx_perm hlt).symm.cons last
        _ |>.Perm (init[i] :: last :: init.eraseIdx i) := List.Perm.swap ..
        _ |>.Perm (init[i] :: init.set i last) := (List.set_perm_cons_eraseIdx hlt last).symm.cons _
    · rw [List.getElem_concat_length rfl, List.set_eq_of_length_le (Nat.le_refl _)]
  · rw [List.take_set_of_le (Nat.le_refl i), List.take_append_of_le_length hle]

/-! ## Several removals -/

/-- **From the largest position down**, every removal finds its element where it
was, and in the end exactly these are gone. -/
theorem foldlM_swapRemove {indices : List Nat} (hdesc : indices.Pairwise (· > ·))
    (hlt : ∀ i ∈ indices, i < l.length) :
    ∃ left, indices.foldlM swapRemove l = some left ∧
      l.Perm (indices.filterMap (l[·]?) ++ left) := by
  induction indices generalizing l with
  | nil => exact ⟨l, rfl, .refl l⟩
  | cons i indices ih =>
    obtain ⟨hbelow, hdesc⟩ := List.pairwise_cons.mp hdesc
    have hi := hlt i List.mem_cons_self
    obtain ⟨next, hnext, hperm, htake⟩ := swapRemove_of_lt hi
    have hlength : next.length + 1 = l.length := hperm.length_eq.symm
    -- The positions still to come are below the gap, where nothing has moved.
    have hsame : ∀ j ∈ indices, next[j]? = l[j]? := by
      intro j hj
      rw [← List.getElem?_take_of_lt (hbelow j hj), htake, List.getElem?_take_of_lt (hbelow j hj)]
    have hlt' : ∀ j ∈ indices, j < next.length := by
      intro j hj
      have hji := hbelow j hj
      omega
    obtain ⟨left, hleft, hrest⟩ := ih hdesc hlt'
    refine ⟨left, ?_, ?_⟩
    · rw [List.foldlM_cons, hnext]
      exact hleft
    · rw [List.filterMap_cons, List.getElem?_eq_getElem hi]
      rw [List.filterMap_congr hsame] at hrest
      exact hperm.trans (hrest.cons _)

/-- The positions at which a test says so, in ascending order. -/
def positions (p : α × Nat → Bool) (l : List α) : List Nat := (l.zipIdx.filter p).map (·.2)

/-- The elements at which a test says so. -/
def elements (p : α × Nat → Bool) (l : List α) : List α := (l.zipIdx.filter p).map (·.1)

theorem elements_append_perm (p : α × Nat → Bool) (l : List α) :
    (elements p l ++ elements (fun e => !p e) l).Perm l := by
  have hsplit := (List.filter_append_perm p l.zipIdx).map (·.1)
  rw [List.map_append, List.zipIdx_map_fst] at hsplit
  exact hsplit

theorem pairwise_positions (p : α × Nat → Bool) (l : List α) :
    (positions p l).Pairwise (· < ·) := by
  have hsub : (positions p l).Sublist (l.zipIdx.map (·.2)) := List.filter_sublist.map _
  refine List.Pairwise.sublist hsub ?_
  rw [List.zipIdx_map_snd]
  exact List.pairwise_lt_range'

theorem filterMap_positions (p : α × Nat → Bool) (l : List α) :
    (positions p l).filterMap (l[·]?) = elements p l := by
  rw [positions, elements, List.filterMap_map, ← List.filterMap_eq_map]
  apply List.filterMap_congr
  intro e he
  exact List.mem_zipIdx_iff_getElem?.mp (List.mem_filter.mp he).1

/-- Removing the positions at which a test says so leaves the elements at which it
does not. -/
theorem foldlM_swapRemove_positions (p : α × Nat → Bool) (l : List α) :
    ∃ left, (positions p l).reverse.foldlM swapRemove l = some left ∧
      left.Perm (elements (fun e => !p e) l) := by
  have hlt : ∀ i ∈ (positions p l).reverse, i < l.length := by
    intro i hi
    obtain ⟨e, he, rfl⟩ := List.mem_map.mp (List.mem_reverse.mp hi)
    exact List.snd_lt_of_mem_zipIdx (List.mem_filter.mp he).1
  obtain ⟨left, hleft, hperm⟩ :=
    foldlM_swapRemove (List.pairwise_reverse.mpr (pairwise_positions p l)) hlt
  refine ⟨left, hleft, ?_⟩
  have hremoved : ((positions p l).reverse.filterMap (l[·]?)).Perm (elements p l) := by
    rw [← filterMap_positions, List.filterMap_reverse]
    exact List.reverse_perm _
  have hboth := (elements_append_perm p l).trans (hperm.trans (hremoved.append_right left))
  exact ((List.perm_append_left_iff _).mp hboth).symm

end McpFramework.Lib
