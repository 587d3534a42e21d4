import McpFramework.Lib.BTreeMap

/-!
# Lib — MultiMap

Maps that may hold several values of one key, as lists of pairs in the order of
arrival. Lookups and removals are those of `BTreeMap`, which ask for no order of
the keys: a lookup takes the first value and a removal all of them.
-/

namespace McpFramework.Lib

abbrev MultiMap (K V : Type*) := BTreeMap K V

namespace MultiMap

open BTreeMap

variable {K V : Type*} [DecidableEq K]

/-- The value replaces all the key had. -/
def insert (m : MultiMap K V) (k : K) (v : V) : MultiMap K V := remove m k ++ [(k, v)]

theorem get_append (m m' : MultiMap K V) (k : K) :
    get (m ++ m') k = (get m k).or (get m' k) := by
  induction m with
  | nil => rfl
  | cons e m ih =>
    rw [List.cons_append, get_cons, get_cons, ih]
    by_cases he : e.1 = k
    · rw [if_pos he, if_pos he, Option.some_or]
    · rw [if_neg he, if_neg he]

@[simp] theorem get_insert_self (m : MultiMap K V) (k : K) (v : V) :
    get (insert m k v) k = some v := by
  rw [insert, get_append, get_remove_self, Option.none_or, get_cons, if_pos rfl]

/-! ## All values of a key

The entries of the other keys are `m.filter fun e => p e.1` for a `p` the key
does not pass. -/

def getAll (m : MultiMap K V) (k : K) : List V :=
  (m.filter fun e => decide (e.1 = k)).map (·.2)

/-- Every value of the key becomes `v`, where it is. -/
def overwrite (m : MultiMap K V) (k : K) (v : V) : MultiMap K V :=
  m.map fun e => if e.1 = k then (e.1, v) else e

/-- The value is appended if the key has none. -/
def orPush (m : MultiMap K V) (k : K) (v : V) : MultiMap K V :=
  if containsKey m k then m else m ++ [(k, v)]

variable {m : MultiMap K V} {k k' : K} {v : V} {p : K → Bool}

theorem getAll_append (m m' : MultiMap K V) (k : K) :
    getAll (m ++ m') k = getAll m k ++ getAll m' k := by
  simp [getAll]

theorem getAll_eq_nil_iff : getAll m k = [] ↔ containsKey m k = false := by
  rw [← Bool.not_eq_true, containsKey_iff, getAll, List.map_eq_nil_iff, List.filter_eq_nil_iff,
    keys, List.mem_map]
  constructor
  · rintro h ⟨e, he, hk⟩
    exact h e he (decide_eq_true hk)
  · intro h e he hk
    exact h ⟨e, he, of_decide_eq_true hk⟩

theorem getAll_insert_self (m : MultiMap K V) (k : K) (v : V) : getAll (insert m k v) k = [v] := by
  simp [getAll, insert, remove]

theorem filter_insert (hp : p k = false) :
    (insert m k v).filter (fun e => p e.1) = m.filter fun e => p e.1 := by
  rw [insert, List.filter_append, remove, List.filter_filter]
  have hnew : [(k, v)].filter (fun e => p e.1) = [] := by simp [hp]
  rw [hnew, List.append_nil]
  refine List.filter_congr fun e _ => ?_
  by_cases h : e.1 = k
  · simp [h, hp]
  · simp [h]

theorem overwrite_self {e : K × V} (h : e ∈ overwrite m k v) (hk : e.1 = k) : e.2 = v := by
  obtain ⟨e', -, rfl⟩ := List.mem_map.mp h
  by_cases he : e'.1 = k
  · simp [he]
  · rw [if_neg he] at hk
    exact absurd hk he

theorem filter_overwrite (hp : p k = false) :
    (overwrite m k v).filter (fun e => p e.1) = m.filter fun e => p e.1 := by
  induction m with
  | nil => rfl
  | cons e m ih =>
    rw [overwrite] at ih ⊢
    by_cases h : e.1 = k
    · rw [List.map_cons, if_pos h, List.filter_cons, List.filter_cons, ih]
      simp [h, hp]
    · rw [List.map_cons, if_neg h, List.filter_cons, List.filter_cons, ih]

theorem filter_orPush (hp : p k = false) :
    (orPush m k v).filter (fun e => p e.1) = m.filter fun e => p e.1 := by
  unfold orPush
  split
  · rfl
  · rw [List.filter_append]
    simp [hp]

/-- Where the key had values they stay. -/
theorem getAll_orPush : getAll (orPush m k v) k = if containsKey m k then getAll m k else [v] := by
  unfold orPush
  split
  · rfl
  · rename_i h
    rw [getAll_append, getAll_eq_nil_iff.mpr (by simpa using h)]
    simp [getAll]

theorem mem_of_mem_orPush {e : K × V} (h : e ∈ orPush m k v) (hk : e.1 ≠ k) : e ∈ m := by
  unfold orPush at h
  split at h
  · exact h
  · rcases List.mem_append.mp h with h | h
    · exact h
    · rw [List.mem_singleton.mp h] at hk
      exact absurd rfl hk

/-- Lists with the same entries of a key have its values alike. -/
theorem getAll_congr {m' : MultiMap K V} (h : ∀ p : K → Bool, p k' = false →
    (m.filter fun e => p e.1) = m'.filter fun e => p e.1) (hk : k ≠ k') :
    getAll m k = getAll m' k := by
  rw [getAll, getAll, h (fun key => decide (key = k)) (decide_eq_false (Ne.symm hk))]

theorem getAll_insert_of_ne (h : k' ≠ k) : getAll (insert m k v) k' = getAll m k' :=
  getAll_congr (fun _ => filter_insert) h

theorem getAll_overwrite_of_ne (h : k' ≠ k) : getAll (overwrite m k v) k' = getAll m k' :=
  getAll_congr (fun _ => filter_overwrite) h

theorem getAll_orPush_of_ne (h : k' ≠ k) : getAll (orPush m k v) k' = getAll m k' :=
  getAll_congr (fun _ => filter_orPush) h

end MultiMap
end McpFramework.Lib
