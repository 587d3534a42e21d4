import Mathlib.Data.List.Basic
import Mathlib.Order.Lattice

/-!
# Lib — BTreeMap

Ordered maps as association lists: an insertion goes to its place in the key
order and replaces what is there. The lookup laws need no order of the list;
that the operations keep the keys increasing is proved beside them.
-/

namespace McpFramework.Lib

/-- A map from `K` to `V`, its entries in iteration order. -/
abbrev BTreeMap (K V : Type*) := List (K × V)

namespace BTreeMap

variable {K V W : Type*}

/-! ## Operations -/

def keys (m : BTreeMap K V) : List K := m.map (·.1)

/-- `values_mut`, or `iter_mut`: each value becomes what `f` makes of its entry. -/
def mapValues (f : K → V → W) (m : BTreeMap K V) : BTreeMap K W :=
  m.map fun e => (e.1, f e.1 e.2)

section Lookup

variable [DecidableEq K]

def get : BTreeMap K V → K → Option V
  | [], _ => none
  | (k', v) :: rest, k => if k' = k then some v else get rest k

def containsKey (m : BTreeMap K V) (k : K) : Bool := (get m k).isSome

def remove (m : BTreeMap K V) (k : K) : BTreeMap K V := m.filter fun e => decide (e.1 ≠ k)

@[simp] theorem get_nil (k : K) : get ([] : BTreeMap K V) k = none := rfl

theorem get_cons (e : K × V) (m : BTreeMap K V) (k : K) :
    get (e :: m) k = if e.1 = k then some e.2 else get m k := rfl

/-- What a lookup finds is an entry. -/
theorem mem_of_get {m : BTreeMap K V} {k : K} {v : V} (h : get m k = some v) : (k, v) ∈ m := by
  induction m with
  | nil => simp at h
  | cons e m ih =>
    rw [get_cons] at h
    split at h
    · next hk =>
      cases h
      rw [← hk]
      exact List.mem_cons_self
    · exact List.mem_cons_of_mem e (ih h)

theorem containsKey_iff (m : BTreeMap K V) (k : K) : containsKey m k = true ↔ k ∈ keys m := by
  induction m with
  | nil => simp [containsKey, keys]
  | cons e m ih =>
    have hstep : containsKey (e :: m) k = true ↔ e.1 = k ∨ containsKey m k = true := by
      unfold containsKey
      rw [get_cons]
      split <;> simp_all
    rw [hstep, ih, keys, keys, List.map_cons, List.mem_cons, eq_comm]

theorem get_eq_none_iff (m : BTreeMap K V) (k : K) : get m k = none ↔ k ∉ keys m := by
  rw [← containsKey_iff, containsKey, Option.isSome_iff_ne_none]
  simp

/-- A key that is there has a value. -/
theorem exists_get {m : BTreeMap K V} {k : K} (h : k ∈ keys m) : ∃ v, get m k = some v :=
  Option.isSome_iff_exists.mp ((containsKey_iff m k).mpr h)

theorem mem_keys_of_get {m : BTreeMap K V} {k : K} {v : V} (h : get m k = some v) : k ∈ keys m :=
  List.mem_map.mpr ⟨(k, v), mem_of_get h, rfl⟩

/-! ## Removal -/

theorem get_remove (m : BTreeMap K V) (k k' : K) :
    get (remove m k) k' = if k' = k then none else get m k' := by
  induction m with
  | nil => simp [remove]
  | cons e m ih =>
    have hcons : remove (e :: m) k = if e.1 = k then remove m k else e :: remove m k := by
      by_cases he : e.1 = k
      · simp [remove, he]
      · simp [remove, he]
    rw [hcons, get_cons]
    by_cases he : e.1 = k
    · rw [if_pos he, ih]
      by_cases hk : k' = k
      · rw [if_pos hk, if_pos hk]
      · rw [if_neg hk, if_neg hk, if_neg (fun h => hk (h.symm.trans he))]
    · rw [if_neg he, get_cons, ih]
      by_cases hk : k' = k
      · rw [if_pos hk, if_pos hk, if_neg (fun h => he (h.trans hk))]
      · rw [if_neg hk, if_neg hk]

@[simp] theorem get_remove_self (m : BTreeMap K V) (k : K) : get (remove m k) k = none := by
  rw [get_remove, if_pos rfl]

theorem get_remove_of_ne (m : BTreeMap K V) {k k' : K} (h : k' ≠ k) :
    get (remove m k) k' = get m k' := by
  rw [get_remove, if_neg h]

theorem mem_remove_iff (m : BTreeMap K V) (k : K) (e : K × V) :
    e ∈ remove m k ↔ e ∈ m ∧ e.1 ≠ k := by
  simp [remove]

theorem remove_of_absent {m : BTreeMap K V} {k : K} (h : k ∉ keys m) : remove m k = m := by
  apply List.filter_eq_self.mpr
  intro e he
  exact decide_eq_true fun hk => h (List.mem_map.mpr ⟨e, he, hk⟩)

theorem mapValues_remove (f : K → V → W) (m : BTreeMap K V) (k : K) :
    mapValues f (remove m k) = remove (mapValues f m) k := by
  unfold mapValues remove
  rw [List.filter_map]
  rfl

end Lookup

/-! ## Values -/

@[simp] theorem mapValues_nil (f : K → V → W) : mapValues f ([] : BTreeMap K V) = [] := rfl

@[simp] theorem mapValues_cons (f : K → V → W) (e : K × V) (m : BTreeMap K V) :
    mapValues f (e :: m) = (e.1, f e.1 e.2) :: mapValues f m := rfl

@[simp] theorem keys_mapValues (f : K → V → W) (m : BTreeMap K V) :
    keys (mapValues f m) = keys m := by
  simp [keys, mapValues]

theorem mem_mapValues_iff (f : K → V → W) (m : BTreeMap K V) (k : K) (w : W) :
    (k, w) ∈ mapValues f m ↔ ∃ v, (k, v) ∈ m ∧ w = f k v := by
  unfold mapValues
  rw [List.mem_map]
  constructor
  · rintro ⟨⟨k', v⟩, hv, he⟩
    cases he
    exact ⟨v, hv, rfl⟩
  · rintro ⟨v, hv, rfl⟩
    exact ⟨(k, v), hv, rfl⟩

theorem mapValues_congr {f g : K → V → W} {m : BTreeMap K V}
    (h : ∀ k v, (k, v) ∈ m → f k v = g k v) : mapValues f m = mapValues g m :=
  List.map_congr_left fun e he => by rw [h e.1 e.2 he]

/-- Two maps made of one agree exactly where the functions do. -/
theorem mapValues_eq_iff (f g : K → V → W) (m : BTreeMap K V) :
    mapValues f m = mapValues g m ↔ ∀ k v, (k, v) ∈ m → f k v = g k v := by
  constructor
  · intro h k v hv
    have he := List.map_inj_left.mp h (k, v) hv
    exact (Prod.mk.inj he).2
  · exact mapValues_congr

theorem get_mapValues [DecidableEq K] (f : K → V → W) (m : BTreeMap K V) (k : K) :
    get (mapValues f m) k = (get m k).map (f k) := by
  induction m with
  | nil => rfl
  | cons e m ih =>
    rw [mapValues_cons, get_cons, get_cons, ih]
    by_cases he : e.1 = k
    · rw [if_pos he, if_pos he, Option.map_some, he]
    · rw [if_neg he, if_neg he]

/-! ## Insertion -/

section Order

variable [LinearOrder K]

def insert : BTreeMap K V → K → V → BTreeMap K V
  | [], k, v => [(k, v)]
  | (k', v') :: rest, k, v =>
    if k < k' then (k, v) :: (k', v') :: rest
    else if k = k' then (k, v) :: rest
    else (k', v') :: insert rest k v

theorem insert_cons (e : K × V) (m : BTreeMap K V) (k : K) (v : V) :
    insert (e :: m) k v =
      if k < e.1 then (k, v) :: e :: m else if k = e.1 then (k, v) :: m else e :: insert m k v :=
  rfl

theorem get_insert (m : BTreeMap K V) (k k' : K) (v : V) :
    get (insert m k v) k' = if k' = k then some v else get m k' := by
  induction m with
  | nil => simp [insert, get, eq_comm]
  | cons e m ih =>
    rw [insert_cons]
    split_ifs with hlt heq hk
    all_goals grind [get_cons]

@[simp] theorem get_insert_self (m : BTreeMap K V) (k : K) (v : V) :
    get (insert m k v) k = some v := by
  rw [get_insert, if_pos rfl]

theorem get_insert_of_ne (m : BTreeMap K V) {k k' : K} (v : V) (h : k' ≠ k) :
    get (insert m k v) k' = get m k' := by
  rw [get_insert, if_neg h]

theorem mem_of_mem_insert {m : BTreeMap K V} {k : K} {v : V} {e : K × V}
    (h : e ∈ insert m k v) : e = (k, v) ∨ e ∈ m := by
  induction m with
  | nil => simpa [insert] using h
  | cons e' m ih =>
    rw [insert_cons] at h
    split_ifs at h <;> grind

theorem mem_keys_insert_iff (m : BTreeMap K V) (k k' : K) (v : V) :
    k' ∈ keys (insert m k v) ↔ k' = k ∨ k' ∈ keys m := by
  rw [← containsKey_iff, ← containsKey_iff, containsKey, containsKey, get_insert]
  by_cases hk : k' = k
  · simp [hk]
  · simp [hk]

theorem remove_insert_self (m : BTreeMap K V) (k : K) (v : V) :
    remove (insert m k v) k = remove m k := by
  induction m with
  | nil => simp [insert, remove]
  | cons e m ih =>
    rw [insert_cons]
    split_ifs with hlt heq
    · simp [remove]
    · simp [remove, heq]
    · have hne : e.1 ≠ k := fun h => heq h.symm
      simpa [remove, hne] using ih

theorem mapValues_insert (f : K → V → W) (m : BTreeMap K V) (k : K) (v : V) :
    mapValues f (insert m k v) = insert (mapValues f m) k (f k v) := by
  induction m with
  | nil => rfl
  | cons e m ih =>
    rw [mapValues_cons, insert_cons, insert_cons]
    split_ifs
    · rfl
    · rfl
    · rw [mapValues_cons, ih]

/-- The entries of `es` go in one after the other. -/
def extend (m es : BTreeMap K V) : BTreeMap K V := es.foldl (fun m e => insert m e.1 e.2) m

@[simp] theorem extend_nil (m : BTreeMap K V) : extend m [] = m := rfl

theorem extend_cons (m : BTreeMap K V) (e : K × V) (es : BTreeMap K V) :
    extend m (e :: es) = extend (insert m e.1 e.2) es := rfl

theorem mapValues_extend (f : K → V → W) (m es : BTreeMap K V) :
    mapValues f (extend m es) = extend (mapValues f m) (mapValues f es) := by
  induction es generalizing m with
  | nil => rfl
  | cons e es ih => rw [extend_cons, ih, mapValues_insert, mapValues_cons, extend_cons]

theorem mem_of_mem_extend {m es : BTreeMap K V} {e : K × V} (h : e ∈ extend m es) :
    e ∈ m ∨ e ∈ es := by
  induction es generalizing m with
  | nil => exact Or.inl h
  | cons e' es ih =>
    rcases ih h with h | h
    · rcases mem_of_mem_insert h with rfl | h
      · exact Or.inr List.mem_cons_self
      · exact Or.inl h
    · exact Or.inr (List.mem_cons_of_mem _ h)

/-! ## Order -/

/-- The keys increase, as the entries of an ordered map do. -/
def Sorted (m : BTreeMap K V) : Prop := m.Pairwise fun a b => a.1 < b.1

instance (m : BTreeMap K V) : Decidable (Sorted m) :=
  inferInstanceAs (Decidable (m.Pairwise fun a b => a.1 < b.1))

theorem Sorted.remove {m : BTreeMap K V} (h : Sorted m) (k : K) : Sorted (remove m k) :=
  h.filter _

theorem Sorted.mapValues {m : BTreeMap K V} (h : Sorted m) (f : K → V → W) :
    Sorted (mapValues f m) :=
  List.pairwise_map.mpr h

theorem Sorted.insert {m : BTreeMap K V} (h : Sorted m) (k : K) (v : V) :
    Sorted (insert m k v) := by
  induction m with
  | nil => simp [BTreeMap.insert, Sorted]
  | cons e m ih =>
    obtain ⟨hhead, htail⟩ := List.pairwise_cons.mp h
    rw [insert_cons]
    split_ifs with hlt heq
    · apply List.pairwise_cons.mpr ⟨_, h⟩
      intro e' he'
      rcases List.mem_cons.mp he' with rfl | he'
      · exact hlt
      · exact hlt.trans (hhead e' he')
    · apply List.pairwise_cons.mpr ⟨_, htail⟩
      intro e' he'
      rw [heq]
      exact hhead e' he'
    · apply List.pairwise_cons.mpr ⟨_, ih htail⟩
      intro e' he'
      rcases mem_of_mem_insert he' with rfl | he'
      · exact lt_of_le_of_ne (not_lt.mp hlt) (Ne.symm heq)
      · exact hhead e' he'

theorem Sorted.extend {m : BTreeMap K V} (h : Sorted m) (es : BTreeMap K V) :
    Sorted (extend m es) := by
  induction es generalizing m with
  | nil => exact h
  | cons e es ih => exact ih (h.insert e.1 e.2)

/-- In a sorted map a key has one entry. -/
theorem Sorted.get_of_mem {m : BTreeMap K V} (h : Sorted m) {k : K} {v : V} (hv : (k, v) ∈ m) :
    get m k = some v := by
  induction m with
  | nil => simp at hv
  | cons e m ih =>
    obtain ⟨hhead, htail⟩ := List.pairwise_cons.mp h
    rw [get_cons]
    rcases List.mem_cons.mp hv with rfl | hv
    · rw [if_pos rfl]
    · rw [if_neg (hhead (k, v) hv).ne]
      exact ih htail hv

theorem get_extend (m : BTreeMap K V) {es : BTreeMap K V} (h : Sorted es) (k : K) :
    get (extend m es) k = (get es k).or (get m k) := by
  induction es generalizing m with
  | nil => rfl
  | cons e es ih =>
    obtain ⟨hhead, htail⟩ := List.pairwise_cons.mp h
    rw [extend_cons, ih _ htail, get_insert, get_cons]
    by_cases hk : e.1 = k
    · have hlater : get es k = none := by
        rw [get_eq_none_iff]
        intro hin
        obtain ⟨e', he', hk'⟩ := List.mem_map.mp hin
        exact (hhead e' he').ne (hk.trans hk'.symm)
      rw [if_pos hk, if_pos hk.symm, hlater]
      rfl
    · rw [if_neg hk, if_neg (fun h => hk h.symm)]

/-- Sorted maps that answer alike are the same. -/
theorem Sorted.ext {m m' : BTreeMap K V} (h : Sorted m) (h' : Sorted m')
    (hget : ∀ k, get m k = get m' k) : m = m' := by
  induction m generalizing m' with
  | nil =>
    cases m' with
    | nil => rfl
    | cons e' m' =>
      have hhead := hget e'.1
      simp [get_cons] at hhead
  | cons e m ih =>
    cases m' with
    | nil =>
      have hhead := hget e.1
      simp [get_cons] at hhead
    | cons e' m' =>
      obtain ⟨hhead, htail⟩ := List.pairwise_cons.mp h
      obtain ⟨hhead', htail'⟩ := List.pairwise_cons.mp h'
      have habove : ∀ {b : K × V} {rest : BTreeMap K V} {k : K}, (∀ a ∈ rest, b.1 < a.1) →
          k ≤ b.1 → get rest k = none := by
        intro b rest k hall hle
        rw [get_eq_none_iff]
        intro hin
        obtain ⟨a, ha, hk⟩ := List.mem_map.mp hin
        exact absurd (hall a ha) (not_lt.mpr (hk ▸ hle))
      have hkey : e.1 = e'.1 := by
        rcases lt_trichotomy e.1 e'.1 with hlt | heq | hgt
        · have hfirst := hget e.1
          rw [get_cons, get_cons, if_pos rfl, if_neg hlt.ne', habove hhead' hlt.le] at hfirst
          cases hfirst
        · exact heq
        · have hfirst := hget e'.1
          rw [get_cons, get_cons, if_pos rfl, if_neg hgt.ne', habove hhead hgt.le] at hfirst
          cases hfirst
      have hvalue : e.2 = e'.2 := by
        have hfirst := hget e.1
        rw [get_cons, get_cons, if_pos rfl, if_pos hkey.symm] at hfirst
        exact Option.some.inj hfirst
      rw [Prod.ext hkey hvalue, ih htail htail']
      intro k
      have hrest := hget k
      rw [get_cons, get_cons, hkey] at hrest
      by_cases hk : e'.1 = k
      · rw [habove hhead (hkey.trans hk).ge, habove hhead' hk.ge]
      · rwa [if_neg hk, if_neg hk] at hrest

end Order

end BTreeMap
end McpFramework.Lib
