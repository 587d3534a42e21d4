import McpFramework.Lib.HashMap
import Mathlib.Data.Finset.Card

/-!
# Lib — Capped

A map with a cap on the number of its keys, updated one key at a time.

The first keys are admitted, up to the cap. What the map holds under an admitted
key is made by all updates of that key and by nothing else (`get?_updates`).
-/

namespace McpFramework.Lib.Capped

variable {K V A : Type*} [DecidableEq K] {cap : Nat} {keys : List K} {k k' : K}

/-- A map after a sequence of updates. -/
def updates (cap : Nat) (new : V) (key : A → K) (f : A → V → V) (as : List A) : HashMap K V :=
  as.foldl (fun m a => m.updateWithin cap (key a) new (f a)) HashMap.empty

/-- Fewer other keys than the cap came before the first time of this one. -/
def Admitted (cap : Nat) (keys : List K) (k : K) : Prop :=
  k ∈ keys ∧ (keys.takeWhile (· ≠ k)).toFinset.card < cap

instance (cap : Nat) (keys : List K) (k : K) : Decidable (Admitted cap keys k) :=
  inferInstanceAs (Decidable (_ ∧ _))

/-- A value after the updates of one key. -/
def updated (new : V) (key : A → K) (f : A → V → V) (as : List A) (k : K) : V :=
  (as.filter fun a => key a = k).foldl (fun v a => f a v) new

theorem takeWhile_ne_concat (hk : k ∈ keys) :
    (keys ++ [k']).takeWhile (· ≠ k) = keys.takeWhile (· ≠ k) := by
  induction keys with
  | nil => cases hk
  | cons x keys ih =>
    by_cases hx : x = k
    · rw [List.cons_append, List.takeWhile_cons_of_neg (by simp [hx]),
        List.takeWhile_cons_of_neg (by simp [hx])]
    · have hk' : k ∈ keys := (List.mem_cons.mp hk).resolve_left (Ne.symm hx)
      rw [List.cons_append, List.takeWhile_cons_of_pos (by simp [hx]),
        List.takeWhile_cons_of_pos (by simp [hx]), ih hk']

/-- One more key is admitted if it was, or if it is new and finds room. -/
theorem admitted_concat : Admitted cap (keys ++ [k']) k ↔
    Admitted cap keys k ∨ k = k' ∧ k ∉ keys ∧ keys.toFinset.card < cap := by
  by_cases hk : k ∈ keys
  · rw [Admitted, Admitted, takeWhile_ne_concat hk]
    simp [hk]
  · by_cases heq : k = k'
    · subst heq
      have hne : ∀ x ∈ keys, decide (x ≠ k) = true := by
        intro x hx
        have hxk : x ≠ k := fun h => hk (h ▸ hx)
        exact decide_eq_true hxk
      have htake : (keys ++ [k]).takeWhile (· ≠ k) = keys := by
        rw [List.takeWhile_append_of_pos hne, List.takeWhile_cons_of_neg (by simp),
          List.append_nil]
      rw [Admitted, Admitted, htake]
      simp [hk]
    · rw [Admitted, Admitted]
      simp [hk, heq]

theorem admitted_concat_of_ne (h : k ≠ k') :
    Admitted cap (keys ++ [k']) k ↔ Admitted cap keys k := by
  rw [admitted_concat]
  simp [h]

/-- A key that is not admitted found the map full. -/
theorem cap_le_card (hk : k ∈ keys) (h : ¬ Admitted cap keys k) : cap ≤ keys.toFinset.card := by
  have hfull : cap ≤ (keys.takeWhile (· ≠ k)).toFinset.card := by
    by_contra hroom
    exact h ⟨hk, Nat.lt_of_not_le hroom⟩
  have hsub : (keys.takeWhile (· ≠ k)).toFinset ⊆ keys.toFinset := by
    intro x hx
    exact List.mem_toFinset.mpr ((List.takeWhile_prefix _).subset (List.mem_toFinset.mp hx))
  exact hfull.trans (Finset.card_le_card hsub)

theorem card_concat : (keys ++ [k]).toFinset.card =
    if k ∈ keys then keys.toFinset.card else keys.toFinset.card + 1 := by
  have hinsert : (keys ++ [k]).toFinset = insert k keys.toFinset := by
    rw [List.toFinset_append, List.toFinset_cons, List.toFinset_nil, Finset.union_comm]
    rfl
  rw [hinsert]
  split
  · rename_i hk
    rw [Finset.insert_eq_of_mem (List.mem_toFinset.mpr hk)]
  · rename_i hk
    exact Finset.card_insert_of_notMem fun hmem => hk (List.mem_toFinset.mp hmem)

section Updates

variable {new : V} {key : A → K} {f : A → V → V} {as : List A}

theorem updated_concat (a : A) : updated new key f (as ++ [a]) k =
    if key a = k then f a (updated new key f as k) else updated new key f as k := by
  rw [updated, List.filter_append, List.foldl_append]
  split
  · rename_i hkey
    rw [List.filter_cons_of_pos (by simpa using hkey)]
    rfl
  · rename_i hkey
    rw [List.filter_cons_of_neg (by simpa using hkey)]
    rfl

/-- A key that no update had. -/
theorem updated_of_notMem (h : k ∉ as.map key) : updated new key f as k = new := by
  have hnone : (as.filter fun a => key a = k) = [] := by
    refine List.filter_eq_nil_iff.mpr fun a ha hkey => h ?_
    rw [← of_decide_eq_true hkey]
    exact List.mem_map_of_mem ha
  rw [updated, hnone]
  rfl

/-- What a map holds after a sequence of updates. -/
structure Holds (cap : Nat) (new : V) (key : A → K) (f : A → V → V) (as : List A)
    (m : HashMap K V) : Prop where
  len : m.len = min cap (as.map key).toFinset.card
  get? : ∀ k, m.get? k =
    if Admitted cap (as.map key) k then some (updated new key f as k) else none

theorem holds_empty : Holds cap new key f [] HashMap.empty where
  len := by simp [HashMap.len, HashMap.empty]
  get? k := by simp [Admitted]

theorem Holds.containsKey {m : HashMap K V} (h : Holds cap new key f as m) :
    m.containsKey k = true ↔ Admitted cap (as.map key) k := by
  rw [HashMap.containsKey, h.get? k]
  split <;> simp_all

/-- There is room for an update exactly where its key is admitted by then. -/
theorem Holds.room_iff {m : HashMap K V} (h : Holds cap new key f as m) (a : A) :
    (m.containsKey (key a) = true ∨ m.len < cap) ↔
      Admitted cap (as.map key ++ [key a]) (key a) := by
  rw [h.containsKey, h.len, admitted_concat]
  constructor
  · rintro (hknown | hroom)
    · exact Or.inl hknown
    · by_cases hmem : key a ∈ as.map key
      · by_contra hnot
        have hfull := cap_le_card hmem fun hknown => hnot (Or.inl hknown)
        omega
      · exact Or.inr ⟨rfl, hmem, by omega⟩
  · rintro (hknown | ⟨-, -, hroom⟩)
    · exact Or.inl hknown
    · exact Or.inr (by omega)

/-- An update that finds room. -/
theorem Holds.insert {m : HashMap K V} (h : Holds cap new key f as m) {a : A}
    (hroom : Admitted cap (as.map key ++ [key a]) (key a)) :
    Holds cap new key f (as ++ [a])
      (m.insert (key a) (f a ((m.get? (key a)).getD new))) where
  len := by
    rw [HashMap.len_insert, h.len, List.map_append, List.map_cons, List.map_nil, card_concat]
    by_cases hknown : Admitted cap (as.map key) (key a)
    · rw [if_pos (h.containsKey.mpr hknown), if_pos hknown.1]
    · have hnew := (admitted_concat.mp hroom).resolve_left hknown
      have hlt := hnew.2.2
      rw [if_neg fun hkey => hknown (h.containsKey.mp hkey), if_neg hnew.2.1]
      omega
  get? k := by
    rw [HashMap.get?_insert, List.map_append, List.map_cons, List.map_nil, updated_concat]
    by_cases hk : k = key a
    · have hvalue : (m.get? (key a)).getD new = updated new key f as (key a) := by
        rw [h.get? (key a)]
        split
        · rfl
        · rename_i hunknown
          have hnew := (admitted_concat.mp hroom).resolve_left hunknown
          exact (updated_of_notMem hnew.2.1).symm
      subst hk
      rw [if_pos rfl, if_pos hroom, if_pos rfl, hvalue]
    · rw [if_neg hk, if_neg (Ne.symm hk), h.get? k]
      simp only [admitted_concat_of_ne hk]

/-- An update that finds the map full. -/
theorem Holds.skip {m : HashMap K V} (h : Holds cap new key f as m) {a : A}
    (hfull : ¬ Admitted cap (as.map key ++ [key a]) (key a)) :
    Holds cap new key f (as ++ [a]) m where
  len := by
    rw [h.len, List.map_append, List.map_cons, List.map_nil, card_concat]
    split
    · rfl
    · rename_i hmem
      have hcap : ¬ (as.map key).toFinset.card < cap := fun hlt =>
        hfull (admitted_concat.mpr (Or.inr ⟨rfl, hmem, hlt⟩))
      omega
  get? k := by
    rw [h.get? k, List.map_append, List.map_cons, List.map_nil, updated_concat]
    by_cases hk : k = key a
    · subst hk
      rw [if_neg hfull, if_neg fun hknown => hfull (admitted_concat.mpr (Or.inl hknown))]
    · rw [if_neg (Ne.symm hk)]
      simp only [admitted_concat_of_ne hk]

theorem Holds.updateWithin {m : HashMap K V} (h : Holds cap new key f as m) (a : A) :
    Holds cap new key f (as ++ [a]) (m.updateWithin cap (key a) new (f a)) := by
  rw [HashMap.updateWithin_eq]
  split
  · rename_i hroom
    exact h.insert ((h.room_iff a).mp hroom)
  · rename_i hfull
    exact h.skip fun hroom => hfull ((h.room_iff a).mpr hroom)

theorem updates_concat (cap : Nat) (new : V) (key : A → K) (f : A → V → V) (as : List A) (a : A) :
    updates cap new key f (as ++ [a]) =
      (updates cap new key f as).updateWithin cap (key a) new (f a) :=
  List.foldl_concat ..

theorem holds_updates (cap : Nat) (new : V) (key : A → K) (f : A → V → V) (as : List A) :
    Holds cap new key f as (updates cap new key f as) := by
  induction as using List.reverseRecOn with
  | nil => exact holds_empty
  | append_singleton as a ih =>
    rw [updates_concat]
    exact ih.updateWithin a

/-- The keys fill the map up to the cap. -/
theorem len_updates (cap : Nat) (new : V) (key : A → K) (f : A → V → V) (as : List A) :
    (updates cap new key f as).len = min cap (as.map key).toFinset.card :=
  (holds_updates cap new key f as).len

/-- **An admitted key has all its updates**, and others are not there. -/
theorem get?_updates (cap : Nat) (new : V) (key : A → K) (f : A → V → V) (as : List A) (k : K) :
    (updates cap new key f as).get? k =
      if Admitted cap (as.map key) k then some (updated new key f as k) else none :=
  (holds_updates cap new key f as).get? k

end Updates

end McpFramework.Lib.Capped
