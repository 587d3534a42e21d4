import Mathlib.Algebra.BigOperators.Group.List.Basic
import Mathlib.Algebra.GroupWithZero.Nat
import Mathlib.Order.Lattice

/-!
# Lib — Buckets

Counting what falls between ascending bounds, and what the counts say about the
order of what was counted: the `k`-th smallest value is at most a bound exactly
when more than `k` values are.
-/

namespace McpFramework.Lib

variable {α : Type*} [LinearOrder α]

/-! ## Order statistics -/

def sorted (l : List α) : List α := l.mergeSort fun a b => decide (a ≤ b)

/-- The `k`-th smallest of the values, from the zeroth on. -/
def kthSmallest (l : List α) (k : Nat) : Option α := (sorted l)[k]?

theorem sorted_perm (l : List α) : (sorted l).Perm l := List.mergeSort_perm l _

theorem pairwise_sorted (l : List α) : (sorted l).Pairwise (· ≤ ·) := by
  refine (List.pairwise_mergeSort (fun a b c hab hbc => ?_) (fun a b => ?_) l).imp
    fun h => of_decide_eq_true h
  · exact decide_eq_true (le_trans (of_decide_eq_true hab) (of_decide_eq_true hbc))
  · rcases le_total a b with h | h
    · simp [h]
    · simp [h]

theorem exists_kthSmallest {l : List α} {k : Nat} (h : k < l.length) :
    ∃ x ∈ l, kthSmallest l k = some x := by
  have hk : k < (sorted l).length := by rwa [(sorted_perm l).length_eq]
  exact ⟨(sorted l)[k], (sorted_perm l).subset (List.getElem_mem hk),
    List.getElem?_eq_getElem hk⟩

/-- In an ascending list the values up to a bound come first. -/
theorem getElem_le_iff {l : List α} (h : l.Pairwise (· ≤ ·)) {k : Nat} (hk : k < l.length)
    (b : α) : l[k] ≤ b ↔ k < l.countP fun x => decide (x ≤ b) := by
  induction l generalizing k with
  | nil => simp at hk
  | cons x l ih =>
    have hle := List.pairwise_cons.mp h
    by_cases hx : x ≤ b
    · rw [List.countP_cons_of_pos (p := fun y => decide (y ≤ b)) (decide_eq_true hx)]
      cases k with
      | zero => simp [hx]
      | succ k =>
        rw [List.getElem_cons_succ, ih hle.2, Nat.succ_lt_succ_iff]
    · have hnone : (x :: l).countP (fun y => decide (y ≤ b)) = 0 := by
        refine List.countP_eq_zero.mpr fun y hy hyb => hx ?_
        rcases List.mem_cons.mp hy with rfl | hy
        · exact of_decide_eq_true hyb
        · exact le_trans (hle.1 y hy) (of_decide_eq_true hyb)
      rw [hnone]
      refine ⟨fun hkb => absurd ?_ hx, fun hlt => absurd hlt (Nat.not_lt_zero k)⟩
      cases k with
      | zero => exact hkb
      | succ k => exact le_trans (hle.1 _ (List.getElem_mem _)) hkb

theorem kthSmallest_le_iff {l : List α} {k : Nat} {x : α} (h : kthSmallest l k = some x) (b : α) :
    x ≤ b ↔ k < l.countP fun y => decide (y ≤ b) := by
  obtain ⟨hk, hx⟩ := List.getElem?_eq_some_iff.mp h
  rw [← hx, getElem_le_iff (pairwise_sorted l) hk, (sorted_perm l).countP_eq]

/-! ## Buckets -/

/-- The first bound a value does not exceed, or the number of bounds. -/
def bucketOf (bounds : List α) (x : α) : Nat := bounds.findIdx fun b => decide (x ≤ b)

theorem bucketOf_le_length (bounds : List α) (x : α) : bucketOf bounds x ≤ bounds.length :=
  List.findIdx_le_length

/-- Between ascending bounds the buckets up to the `i`-th hold the values up to
the `i`-th bound. -/
theorem bucketOf_le_iff {bounds : List α} (h : bounds.Pairwise (· < ·)) {i : Nat}
    (hi : i < bounds.length) (x : α) : bucketOf bounds x ≤ i ↔ x ≤ bounds[i] := by
  constructor
  · intro hle
    have hj : bucketOf bounds x < bounds.length := by omega
    have hx : x ≤ bounds[bucketOf bounds x] := of_decide_eq_true (List.findIdx_getElem (w := hj))
    rcases Nat.lt_or_eq_of_le hle with hlt | heq
    · exact le_trans hx (le_of_lt (List.pairwise_iff_getElem.mp h _ _ hj hi hlt))
    · simpa only [heq] using hx
  · intro hx
    refine Nat.le_of_not_lt fun hlt => ?_
    have hnot := List.not_of_lt_findIdx hlt
    simp [hx] at hnot

/-! ## Counters -/

/-- The counters before the `i`-th, together. -/
def countBefore (counts : List Nat) (i : Nat) : Nat := (counts.take i).sum

@[simp] theorem countBefore_zero (counts : List Nat) : countBefore counts 0 = 0 := by
  simp [countBefore]

theorem countBefore_succ {counts : List Nat} {i : Nat} (h : i < counts.length) :
    countBefore counts (i + 1) = countBefore counts i + counts[i] := by
  rw [countBefore, countBefore, List.take_add_one, List.getElem?_eq_getElem h, List.sum_append]
  simp

theorem countBefore_mono (counts : List Nat) {i j : Nat} (h : i ≤ j) :
    countBefore counts i ≤ countBefore counts j := by
  obtain ⟨d, rfl⟩ := Nat.exists_eq_add_of_le h
  rw [countBefore, countBefore, List.take_add, List.sum_append]
  exact Nat.le_add_right ..

theorem countBefore_length (counts : List Nat) : countBefore counts counts.length = counts.sum := by
  rw [countBefore, List.take_length]

/-- One more of the `j`-th. -/
def increment (counts : List Nat) (j : Nat) : List Nat := counts.modify j (· + 1)

@[simp] theorem length_increment (counts : List Nat) (j : Nat) :
    (increment counts j).length = counts.length := by
  simp [increment]

theorem countBefore_increment {counts : List Nat} {j : Nat} (hj : j < counts.length) (i : Nat) :
    countBefore (increment counts j) i = countBefore counts i + if j < i then 1 else 0 := by
  induction counts generalizing i j with
  | nil => simp at hj
  | cons n counts ih =>
    cases i with
    | zero => simp
    | succ i =>
      cases j with
      | zero =>
        simp [countBefore, increment]
        omega
      | succ j =>
        have htail := ih (j := j) (by simpa using hj) i
        simp only [countBefore, increment] at htail
        simp [countBefore, increment, htail, Nat.add_assoc]

end McpFramework.Lib
