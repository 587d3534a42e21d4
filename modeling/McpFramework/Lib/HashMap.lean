import Mathlib.Algebra.BigOperators.Group.List.Basic
import Mathlib.Algebra.GroupWithZero.Nat
import Mathlib.Data.List.AList
import Mathlib.Tactic.Tauto

/-!
# Lib — HashMap

Finite maps: an association list without duplicate keys (`AList`), under the
operations of a hash map and with one lookup equation for each of them. The
order of the entries is the iteration order, and nothing here depends on it.
-/

namespace McpFramework.Lib

/-- A finite map from `K` to `V`; that no key occurs twice is a field of it. -/
abbrev HashMap (K V : Type*) := AList (fun _ : K => V)

namespace HashMap

variable {K V : Type*}

def empty : HashMap K V := ∅

/-- The number of entries. -/
def len (m : HashMap K V) : Nat := m.entries.length

def values (m : HashMap K V) : List V := m.entries.map (·.2)

/-- What a function makes of the values. -/
def mapValues {W : Type*} (f : V → W) (m : HashMap K V) : HashMap K W :=
  ⟨m.entries.map fun e => ⟨e.1, f e.2⟩, by
    simpa [List.NodupKeys, List.keys, List.map_map, Function.comp_def] using m.nodupKeys⟩

theorem len_eq_length_values (m : HashMap K V) : m.len = m.values.length :=
  (List.length_map _).symm

/-- Keep the entries that pass `p`. -/
def retain (p : K → V → Bool) (m : HashMap K V) : HashMap K V :=
  ⟨m.entries.filter fun e => p e.1 e.2, m.nodupKeys.sublist List.filter_sublist⟩

variable [DecidableEq K]

def get? (m : HashMap K V) (k : K) : Option V := m.lookup k

def containsKey (m : HashMap K V) (k : K) : Bool := (m.get? k).isSome

def insert (m : HashMap K V) (k : K) (v : V) : HashMap K V := AList.insert k v m

def remove (m : HashMap K V) (k : K) : HashMap K V := m.erase k

/-- `entry(k).or_insert(v)`: the map only changes when `k` is absent. -/
def orInsert (m : HashMap K V) (k : K) (v : V) : HashMap K V :=
  match m.get? k with
  | some _ => m
  | none => m.insert k v

/-- The entry of `k` becomes `v`. -/
def set (m : HashMap K V) (k : K) (v : Option V) : HashMap K V :=
  match v with
  | some v => m.insert k v
  | none => m.remove k

/-- The entry of `k`, made from `new` if there is none, becomes what `f` makes of it;
one that is not in the map is only made below the cap. -/
def updateWithin (m : HashMap K V) (cap : Nat) (k : K) (new : V) (f : V → V) : HashMap K V :=
  let known := m.containsKey k
  if known || m.len < cap then
    let m := if known then m else m.insert k new
    match m.get? k with
    | some v => m.insert k (f v)
    | none => m
  else m

def removeAll (m : HashMap K V) (ks : List K) : HashMap K V := ks.foldl remove m

@[simp] theorem get?_empty (k : K) : (empty : HashMap K V).get? k = none :=
  AList.lookup_empty k

theorem get?_insert (m : HashMap K V) (k k' : K) (v : V) :
    (m.insert k v).get? k' = if k' = k then some v else m.get? k' := by
  by_cases h : k' = k
  · subst h
    simp [get?, insert]
  · simp [get?, insert, h]

@[simp] theorem get?_insert_self (m : HashMap K V) (k : K) (v : V) :
    (m.insert k v).get? k = some v := by
  simp [get?_insert]

theorem get?_insert_of_ne (m : HashMap K V) {k k' : K} (v : V) (h : k' ≠ k) :
    (m.insert k v).get? k' = m.get? k' := by
  simp [get?_insert, h]

theorem get?_remove (m : HashMap K V) (k k' : K) :
    (m.remove k).get? k' = if k' = k then none else m.get? k' := by
  by_cases h : k' = k
  · subst h
    simp [get?, remove]
  · simp [get?, remove, h]

@[simp] theorem get?_remove_self (m : HashMap K V) (k : K) : (m.remove k).get? k = none := by
  simp [get?_remove]

theorem containsKey_insert_iff (m : HashMap K V) (k k' : K) (v : V) :
    (m.insert k v).containsKey k' = true ↔ k' = k ∨ m.containsKey k' = true := by
  unfold containsKey
  rw [get?_insert]
  split <;> simp_all

/-- What is inserted one by one is in the map. -/
theorem containsKey_foldl_insert_iff (es : List (K × V)) (m : HashMap K V) (k : K) :
    (es.foldl (fun m e => m.insert e.1 e.2) m).containsKey k = true ↔
      k ∈ es.map (·.1) ∨ m.containsKey k = true := by
  induction es generalizing m with
  | nil => simp
  | cons e es ih =>
    rw [List.foldl_cons, ih, containsKey_insert_iff, List.map_cons, List.mem_cons]
    tauto

/-- Entries that all agree with a function, inserted one by one, are its values. -/
theorem get?_foldl_insert {f : K → Option V} {es : List (K × V)}
    (h : ∀ e ∈ es, f e.1 = some e.2) (m : HashMap K V) (k : K) :
    (es.foldl (fun m e => m.insert e.1 e.2) m).get? k =
      if k ∈ es.map (·.1) then f k else m.get? k := by
  induction es generalizing m with
  | nil => simp
  | cons e es ih =>
    have hrest := ih (fun e' he' => h e' (List.mem_cons_of_mem e he')) (m.insert e.1 e.2)
    rw [List.foldl_cons, hrest, get?_insert]
    by_cases hk : k = e.1
    · subst hk
      simp [h e List.mem_cons_self]
    · simp only [List.map_cons, List.mem_cons, hk, if_false, false_or]

theorem containsKey_iff (m : HashMap K V) (k : K) : m.containsKey k = true ↔ k ∈ m.keys :=
  AList.lookup_isSome

theorem remove_of_absent (m : HashMap K V) {k : K} (h : m.containsKey k = false) :
    m.remove k = m := by
  have hk : k ∉ m := by
    rw [← AList.lookup_isSome]
    simpa [containsKey, get?] using h
  exact AList.ext (List.kerase_of_notMem_keys hk)

theorem get?_orInsert (m : HashMap K V) (k k' : K) (v : V) :
    (m.orInsert k v).get? k' = if k' = k then some ((m.get? k).getD v) else m.get? k' := by
  unfold orInsert
  cases hk : m.get? k with
  | none => simp [get?_insert]
  | some w =>
    by_cases h : k' = k
    · subst h
      simp [hk]
    · simp [h]

/-- An entry of the list is what a lookup of its key answers. -/
theorem mem_entries_iff (m : HashMap K V) (k : K) (v : V) :
    ⟨k, v⟩ ∈ m.entries ↔ m.get? k = some v := by
  rw [get?, ← Option.mem_def, AList.mem_lookup_iff]

theorem get?_retain (p : K → V → Bool) (m : HashMap K V) (k : K) :
    (m.retain p).get? k = (m.get? k).filter (p k) := by
  ext v
  rw [← mem_entries_iff, retain, List.mem_filter, mem_entries_iff, Option.filter_eq_some_iff]

theorem get?_set (m : HashMap K V) (k k' : K) (v : Option V) :
    (m.set k v).get? k' = if k' = k then v else m.get? k' := by
  cases v with
  | some v => exact get?_insert m k k' v
  | none => exact get?_remove m k k'

theorem get?_removeAll (m : HashMap K V) (ks : List K) (k : K) :
    (m.removeAll ks).get? k = if k ∈ ks then none else m.get? k := by
  induction ks generalizing m with
  | nil => simp [removeAll]
  | cons k' ks ih =>
    have hrest := ih (m.remove k')
    rw [removeAll] at hrest ⊢
    rw [List.foldl_cons, hrest, get?_remove]
    by_cases hk : k = k'
    · simp [hk]
    · simp [hk]

theorem get?_mapValues {W : Type*} (f : V → W) (m : HashMap K V) (k : K) :
    (m.mapValues f).get? k = (m.get? k).map f := by
  ext w
  rw [← mem_entries_iff, mapValues, List.mem_map, Option.map_eq_some_iff]
  constructor
  · rintro ⟨⟨k', v⟩, hmem, heq⟩
    cases heq
    exact ⟨v, (mem_entries_iff m k' v).mp hmem, rfl⟩
  · rintro ⟨v, hv, rfl⟩
    exact ⟨⟨k, v⟩, (mem_entries_iff m k v).mpr hv, rfl⟩

theorem kerase_cons (k : K) (e : Sigma fun _ : K => V) (entries : List (Sigma fun _ : K => V)) :
    (e :: entries).kerase k = if k = e.1 then entries else e :: entries.kerase k := by
  split
  · exact List.kerase_cons_eq ‹_›
  · exact List.kerase_cons_ne ‹_›

theorem map_kerase {W : Type*} (f : V → W) (entries : List (Sigma fun _ : K => V)) (k : K) :
    ((entries.kerase k).map fun e => (⟨e.1, f e.2⟩ : Sigma fun _ : K => W)) =
      (entries.map fun e => ⟨e.1, f e.2⟩).kerase k := by
  induction entries with
  | nil => rfl
  | cons e entries ih =>
    rw [kerase_cons, List.map_cons, kerase_cons, ← ih]
    split <;> rfl

theorem mapValues_insert {W : Type*} (f : V → W) (m : HashMap K V) (k : K) (v : V) :
    (m.insert k v).mapValues f = (m.mapValues f).insert k (f v) := by
  refine AList.ext ?_
  simp only [mapValues, insert, AList.entries_insert, List.map_cons, map_kerase]

theorem mapValues_remove {W : Type*} (f : V → W) (m : HashMap K V) (k : K) :
    (m.remove k).mapValues f = (m.mapValues f).remove k :=
  AList.ext (map_kerase f m.entries k)

/-- Where every value knows its key, the values of one key are what a lookup of
it answers. -/
theorem filter_values {key : V → K} {m : HashMap K V}
    (h : ∀ k v, m.get? k = some v → key v = k) (k : K) :
    (m.values.filter fun v => decide (key v = k)) = (m.get? k).toList := by
  have hkeys : ∀ e ∈ m.entries, key e.2 = e.1 := fun e he =>
    h e.1 e.2 ((mem_entries_iff m e.1 e.2).mp he)
  rw [values, get?, AList.lookup]
  have hnodup := m.nodupKeys
  revert hkeys hnodup
  induction m.entries with
  | nil => intros; rfl
  | cons e entries ih =>
    intro hkeys hnodup
    obtain ⟨hfresh, hrest⟩ := List.nodupKeys_cons.mp hnodup
    have htail := ih (fun e' he' => hkeys e' (List.mem_cons_of_mem e he')) hrest
    rw [List.map_cons, List.filter_cons, htail]
    obtain ⟨k', v⟩ := e
    by_cases hk : k' = k
    · subst hk
      simp [hkeys ⟨k', v⟩ List.mem_cons_self, List.dlookup_eq_none.mpr hfresh]
    · have hne : ¬ key v = k := by
        rw [hkeys ⟨k', v⟩ List.mem_cons_self]
        exact hk
      simp [hne, List.dlookup_cons_ne entries ⟨k', v⟩ (Ne.symm hk)]

/-! ## Counting entries -/

theorem get?_eq_none_of_containsKey {m : HashMap K V} {k : K} (h : m.containsKey k = false) :
    m.get? k = none := by
  rwa [containsKey, Option.isSome_eq_false_iff, Option.isNone_iff_eq_none] at h

/-- The values are that of one key and those of the map without it. -/
theorem values_perm {m : HashMap K V} {k : K} {v : V} (h : m.get? k = some v) :
    m.values.Perm (v :: (m.remove k).values) := by
  have hentries : m.entries.Perm (⟨k, v⟩ :: (m.remove k).entries) := by
    have hnodup := m.nodupKeys.nodup
    have hrest := (m.remove k).nodupKeys.nodup
    have hfresh : (⟨k, v⟩ : Sigma fun _ : K => V) ∉ (m.remove k).entries := by
      rw [mem_entries_iff, get?_remove_self]
      exact Option.some_ne_none v ∘ Eq.symm
    refine (List.perm_ext_iff_of_nodup hnodup (List.nodup_cons.mpr ⟨hfresh, hrest⟩)).mpr ?_
    rintro ⟨k', v'⟩
    rw [List.mem_cons, mem_entries_iff, mem_entries_iff, get?_remove]
    by_cases hk : k' = k
    · subst hk
      simp [h, eq_comm]
    · simp [hk]
  exact hentries.map (·.2)

theorem len_remove {m : HashMap K V} {k : K} {v : V} (h : m.get? k = some v) :
    (m.remove k).len + 1 = m.len := by
  rw [len_eq_length_values, len_eq_length_values, (values_perm h).length_eq, List.length_cons]

/-- What a sum over the values gains where one of them changes. -/
theorem sum_values_insert (g : V → Nat) (m : HashMap K V) (k : K) (v : V) :
    ((m.insert k v).values.map g).sum + ((m.get? k).map g).getD 0 = (m.values.map g).sum + g v := by
  have hinsert : (m.insert k v).values = v :: (m.remove k).values := by
    rw [values, insert, AList.entries_insert]
    rfl
  rw [hinsert, List.map_cons, List.sum_cons]
  cases hk : m.get? k with
  | none =>
    rw [remove_of_absent m (by simp [containsKey, hk]), Option.map_none, Option.getD_none]
    omega
  | some w =>
    rw [((values_perm hk).map g).sum_eq, List.map_cons, List.sum_cons, Option.map_some,
      Option.getD_some]
    omega

omit [DecidableEq K] in
theorem len_retain_le (p : K → V → Bool) (m : HashMap K V) : (m.retain p).len ≤ m.len :=
  List.length_filter_le _ _

omit [DecidableEq K] in
/-- A map that loses no entry keeps each. -/
theorem retain_eq_self_of_len {p : K → V → Bool} {m : HashMap K V} (h : (m.retain p).len = m.len) :
    m.retain p = m :=
  AList.ext (List.filter_eq_self.mpr (List.length_filter_eq_length_iff.mp h))

theorem len_insert (m : HashMap K V) (k : K) (v : V) :
    (m.insert k v).len = if m.containsKey k then m.len else m.len + 1 := by
  have hsum := sum_values_insert (fun _ => 1) m k v
  have hlen : ∀ m : HashMap K V, (m.values.map fun _ => 1).sum = m.len := fun m => by
    simp [len_eq_length_values]
  rw [hlen, hlen] at hsum
  cases hk : m.get? k with
  | none => simpa [containsKey, hk] using hsum
  | some w => simpa [containsKey, hk] using hsum

/-- An update writes one entry, or none at the cap. -/
theorem updateWithin_eq (m : HashMap K V) (cap : Nat) (k : K) (new : V) (f : V → V) :
    m.updateWithin cap k new f =
      if m.containsKey k = true ∨ m.len < cap then m.insert k (f ((m.get? k).getD new)) else m := by
  rw [updateWithin]
  cases hk : m.containsKey k with
  | true =>
    obtain ⟨v, hv⟩ := Option.isSome_iff_exists.mp hk
    simp [hv]
  | false =>
    have hnone := get?_eq_none_of_containsKey hk
    simp only [hnone, Bool.false_or, decide_eq_true_eq, Bool.false_eq_true, if_false, false_or,
      get?_insert_self, Option.getD_none]
    congr 1
    exact AList.insert_insert m

theorem len_updateWithin_le {m : HashMap K V} {cap : Nat} (h : m.len ≤ cap) (k : K) (new : V)
    (f : V → V) : (m.updateWithin cap k new f).len ≤ cap := by
  rw [updateWithin_eq]
  split
  · rename_i hroom
    rw [len_insert]
    split
    · exact h
    · rename_i hfresh
      exact hroom.resolve_left hfresh
  · exact h

/-- What new values satisfy and updates keep holds of every value. -/
theorem forall_updateWithin {P : V → Prop} {m : HashMap K V} {k : K} {new : V} {f : V → V}
    (cap : Nat) (h : ∀ k v, m.get? k = some v → P v) (hf : P (f ((m.get? k).getD new))) :
    ∀ k' v, (m.updateWithin cap k new f).get? k' = some v → P v := by
  intro k' v hv
  rw [updateWithin_eq] at hv
  split at hv
  · rw [get?_insert] at hv
    split at hv
    · cases hv
      exact hf
    · exact h k' v hv
  · exact h k' v hv

end HashMap
end McpFramework.Lib
