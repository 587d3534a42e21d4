import Mathlib.Data.Set.Basic
import Mathlib.Logic.Relation
import Mathlib.Order.Basic

/-!
# Lib — TwoStamps

Values with two optional stamps, compared by the first stamp where both have it
and by the second otherwise.

Such a comparison is irreflexive and asymmetric, but two of them in a row may be
by different stamps. A register that keeps the newer value can then come back to
one that it gave up, exactly where a value without the first stamp lies between
two that the stamps order differently.
-/

namespace McpFramework.Lib.TwoStamps

open Relation

variable {α β : Type*} [LinearOrder β] (first second : α → Option β)

/-- `none` where the values have no stamp in common. -/
def newer (a b : α) : Option Bool :=
  match first a, first b with
  | some new, some old => some (decide (new > old))
  | _, _ =>
    match second a, second b with
    | some new, some old => some (decide (new > old))
    | _, _ => none

/-- The register after a value was offered. -/
def keep (held offered : α) : α :=
  if (newer first second offered held).getD false then offered else held

def kept (held : α) (offered : List α) : α := offered.foldl (keep first second) held

/-- A register never comes back to a value it gave up, on offers from a set. -/
def NeverBack (S : Set α) : Prop :=
  ∀ held ∈ S, ∀ before after, (∀ a ∈ before ++ after, a ∈ S) →
    kept first second held before ≠ held → kept first second held (before ++ after) ≠ held

/-- A value without the first stamp lies, by the second, between two values that
the first stamp orders the other way. -/
def Crossing (S : Set α) : Prop :=
  ∃ a ∈ S, ∃ between ∈ S, ∃ b ∈ S, ∃ i p q j r,
    first a = some i ∧ second a = some p ∧ first between = none ∧ second between = some q ∧
      first b = some j ∧ second b = some r ∧ r < q ∧ q < p ∧ i < j

variable {first second} {a b d : α} {S : Set α}

/-! ## One comparison -/

theorem newer_iff : newer first second a b = some true ↔
    (∃ i j, first a = some i ∧ first b = some j ∧ j < i) ∨
      ((first a = none ∨ first b = none) ∧
        ∃ p q, second a = some p ∧ second b = some q ∧ q < p) := by
  unfold newer
  cases first a <;> cases first b <;> cases second a <;> cases second b <;> simp

theorem newer_irrefl (a : α) : newer first second a a ≠ some true := by
  rw [Ne, newer_iff]
  rintro (⟨i, j, hi, hj, hlt⟩ | ⟨-, p, q, hp, hq, hlt⟩)
  · rw [hi] at hj
    cases hj
    exact lt_irrefl i hlt
  · rw [hp] at hq
    cases hq
    exact lt_irrefl p hlt

theorem newer_asymm (h : newer first second a b = some true) :
    newer first second b a = some false := by
  rcases newer_iff.mp h with ⟨i, j, hi, hj, hlt⟩ | ⟨ha | hb, p, q, hp, hq, hlt⟩
  · simp [newer, hi, hj, le_of_lt hlt]
  · simp [newer, ha, hp, hq, le_of_lt hlt]
  · simp [newer, hb, hp, hq, le_of_lt hlt]

/-- Three values are compared by one stamp unless exactly one of them lacks the
first. -/
theorem newer_trans (hone : ([a, b, d].countP fun t => (first t).isNone) ≠ 1)
    (hab : newer first second a b = some true) (hbd : newer first second b d = some true) :
    newer first second a d = some true := by
  rw [newer_iff] at hab hbd ⊢
  rcases hab with ⟨i, j, hi, hj, hlt⟩ | ⟨hnone, p, q, hp, hq, hlt⟩
  · rcases hbd with ⟨j', k, hj', hk, hlt'⟩ | ⟨hnone', -⟩
    · rw [hj] at hj'
      cases hj'
      exact .inl ⟨i, k, hi, hk, lt_trans hlt' hlt⟩
    · -- Only `d` can lack the first stamp, and it is the only one.
      exfalso
      rcases hnone' with hb | hd
      · rw [hb] at hj
        cases hj
      · exact hone (by simp [hi, hj, hd])
  · rcases hbd with ⟨j, k, hj, hk, -⟩ | ⟨hnone', q', r, hq', hr, hlt'⟩
    · exfalso
      rcases hnone with ha | hb
      · exact hone (by simp [ha, hj, hk])
      · rw [hb] at hj
        cases hj
    · rw [hq] at hq'
      cases hq'
      refine .inr ⟨?_, p, r, hp, hr, lt_trans hlt' hlt⟩
      by_contra hboth
      obtain ⟨ha, hd⟩ := not_or.mp hboth
      have hb : first b = none := (hnone.resolve_left ha)
      obtain ⟨i, hi⟩ := Option.ne_none_iff_exists'.mp ha
      obtain ⟨k, hk⟩ := Option.ne_none_iff_exists'.mp hd
      exact hone (by simp [hi, hb, hk])

/-! ## Rising through a set -/

/-- A step of the register: to a newer value of the set. -/
def Up (first second : α → Option β) (S : Set α) (a b : α) : Prop :=
  b ∈ S ∧ newer first second b a = some true

/-- Later by the first stamp, or by the second where the first ones are equal. -/
def Later (first second : α → Option β) (a b : α) : Prop :=
  ∃ i j, first a = some i ∧ first b = some j ∧
    (i < j ∨ i = j ∧ ∃ p q, second a = some p ∧ second b = some q ∧ p < q)

theorem Later.irrefl (h : Later first second a a) : False := by
  obtain ⟨i, j, hi, hj, hlt | ⟨-, p, q, hp, hq, hlt⟩⟩ := h
  · rw [hi] at hj
    cases hj
    exact lt_irrefl i hlt
  · rw [hp] at hq
    cases hq
    exact lt_irrefl p hlt

theorem Later.trans (h : Later first second a b) (h' : Later first second b d) :
    Later first second a d := by
  obtain ⟨i, j, hi, hj, hij⟩ := h
  obtain ⟨j', k, hj', hk, hjk⟩ := h'
  rw [hj] at hj'
  cases hj'
  refine ⟨i, k, hi, hk, ?_⟩
  rcases hij with hij | ⟨rfl, p, q, hp, hq, hpq⟩
  · rcases hjk with hjk | ⟨rfl, -⟩
    · exact .inl (lt_trans hij hjk)
    · exact .inl hij
  · rcases hjk with hjk | ⟨rfl, q', r, hq', hr, hqr⟩
    · exact .inl hjk
    · rw [hq] at hq'
      cases hq'
      exact .inr ⟨rfl, p, r, hp, hr, lt_trans hpq hqr⟩

/-- What is reached from a value with the first stamp: something later, or
without the first stamp something above such a value. -/
def Above (first second : α → Option β) (S : Set α) (a z : α) : Prop :=
  Later first second a z ∨
    first z = none ∧ ∃ t ∈ S, (t = a ∨ Later first second a t) ∧ (first t).isSome = true ∧
      ∃ p q, second t = some p ∧ second z = some q ∧ p < q

theorem Above.step {z z' : α} (hS : ¬ Crossing first second S) (haS : a ∈ S)
    (ha : (first a).isSome = true) (hz : z ∈ S) (h : z = a ∨ Above first second S a z)
    (hup : Up first second S z z') : Above first second S a z' := by
  obtain ⟨hz', hnewer⟩ := hup
  rcases newer_iff.mp hnewer with ⟨j, i, hj, hi, hlt⟩ | ⟨hnone, q, p, hq, hp, hlt⟩
  · -- By the first stamp.
    have hlater : Later first second z z' := ⟨i, j, hi, hj, .inl hlt⟩
    rcases h with rfl | h | ⟨hz, -⟩
    · exact .inl hlater
    · exact .inl (h.trans hlater)
    · rw [hz] at hi
      cases hi
  · cases hfz : first z with
    | none =>
      -- From a value without the first stamp: `t` is where the chain left the stamped ones.
      have habove : Above first second S a z := h.resolve_left fun heq => by
        rw [← heq, hfz] at ha
        cases ha
      obtain ⟨-, t, htS, ht, htfirst, r, p', hr, hp', hlt'⟩ := habove.resolve_left fun hl => by
        obtain ⟨-, j, -, hj, -⟩ := hl
        rw [hfz] at hj
        cases hj
      rw [hp] at hp'
      cases hp'
      cases hfz' : first z' with
      | none => exact .inr ⟨hfz', t, htS, ht, htfirst, r, q, hr, hq, lt_trans hlt' hlt⟩
      | some j =>
        obtain ⟨i, hi⟩ := Option.isSome_iff_exists.mp htfirst
        have hle : i ≤ j := by
          by_contra hji
          exact hS ⟨z', hz', z, hz, t, htS, j, q, p, i, r, hfz', hq, hfz, hp, hi, hr, hlt', hlt,
            lt_of_not_ge hji⟩
        have hlater : Later first second t z' := by
          refine ⟨i, j, hi, hfz', ?_⟩
          rcases lt_or_eq_of_le hle with hij | heq
          · exact .inl hij
          · exact .inr ⟨heq, r, q, hr, hq, lt_trans hlt' hlt⟩
        rcases ht with rfl | ht
        · exact .inl hlater
        · exact .inl (ht.trans hlater)
    | some i =>
      have hfz' : first z' = none := hnone.resolve_right (by simp [hfz])
      refine .inr ⟨hfz', z, hz, ?_, by simp [hfz], p, q, hp, hq, hlt⟩
      exact h.imp id fun h => h.resolve_right fun h => by
        rw [hfz] at h
        cases h.1

/-- Nothing rises from a value with the first stamp back to it. -/
theorem not_cycle_of_first (hS : ¬ Crossing first second S) (haS : a ∈ S)
    (ha : (first a).isSome = true) : ¬ TransGen (Up first second S) a a := by
  have habove : ∀ z, TransGen (Up first second S) a z → z ∈ S ∧ Above first second S a z := by
    intro z hz
    induction hz with
    | single hup => exact ⟨hup.1, Above.step hS haS ha haS (.inl rfl) hup⟩
    | tail _ hup ih => exact ⟨hup.1, Above.step hS haS ha ih.1 (.inr ih.2) hup⟩
  intro hcycle
  rcases (habove a hcycle).2 with hlater | ⟨hnone, -⟩
  · exact hlater.irrefl
  · rw [hnone] at ha
    cases ha

/-- A rise goes by the second stamp alone, or passes a value with the first. -/
theorem rise_cases {z : α} (h : TransGen (Up first second S) a z) :
    (first z = none ∧ ∃ p q, second a = some p ∧ second z = some q ∧ p < q) ∨
      ∃ t ∈ S, (first t).isSome = true ∧ TransGen (Up first second S) a t ∧
        (z = t ∨ TransGen (Up first second S) t z) := by
  induction h with
  | @single z hup =>
    cases hz : first z with
    | none =>
      rcases newer_iff.mp hup.2 with ⟨j, i, hj, -⟩ | ⟨-, q, p, hq, hp, hlt⟩
      · rw [hz] at hj
        cases hj
      · exact .inl ⟨rfl, p, q, hp, hq, hlt⟩
    | some j => exact .inr ⟨z, hup.1, by simp [hz], .single hup, .inl rfl⟩
  | @tail z z' hrise hup ih =>
    rcases ih with ⟨hz, p, q, hp, hq, hlt⟩ | ⟨t, htS, ht, hat, htz⟩
    · cases hz' : first z' with
      | none =>
        rcases newer_iff.mp hup.2 with ⟨j, i, hj, -⟩ | ⟨-, r, q', hr, hq', hlt'⟩
        · rw [hz'] at hj
          cases hj
        · rw [hq] at hq'
          cases hq'
          exact .inl ⟨rfl, p, r, hp, hr, lt_trans hlt hlt'⟩
      | some j => exact .inr ⟨z', hup.1, by simp [hz'], hrise.tail hup, .inl rfl⟩
    · refine .inr ⟨t, htS, ht, hat, .inr ?_⟩
      rcases htz with rfl | htz
      · exact .single hup
      · exact htz.tail hup

/-- **No cycles** without a crossing. -/
theorem not_cycle (hS : ¬ Crossing first second S) (haS : a ∈ S) :
    ¬ TransGen (Up first second S) a a := by
  intro hcycle
  cases ha : first a with
  | some i => exact not_cycle_of_first hS haS (by simp [ha]) hcycle
  | none =>
    rcases rise_cases hcycle with ⟨-, p, q, hp, hq, hlt⟩ | ⟨t, htS, ht, hat, hta⟩
    · rw [hp] at hq
      cases hq
      exact lt_irrefl p hlt
    · -- The cycle passes a value with the first stamp, and is one of that value.
      rcases hta with rfl | hta
      · rw [ha] at ht
        cases ht
      · exact not_cycle_of_first hS htS ht (hta.trans hat)

/-! ## The register -/

theorem keep_of_newer (h : newer first second b a = some true) : keep first second a b = b := by
  simp [keep, h]

theorem keep_cases (first second : α → Option β) (held offered : α) :
    keep first second held offered = held ∨
    newer first second offered held = some true ∧ keep first second held offered = offered := by
  unfold keep
  cases h : newer first second offered held with
  | none => exact .inl (by simp)
  | some newer => cases newer <;> simp

theorem kept_cases (first second : α → Option β) (held : α) (offered : List α)
    (h : ∀ a ∈ offered, a ∈ S) :
    kept first second held offered = held ∨
      TransGen (Up first second S) held (kept first second held offered) := by
  induction offered generalizing held with
  | nil => exact .inl rfl
  | cons b offered ih =>
    have hrest := ih (keep first second held b) fun a ha => h a (List.mem_cons_of_mem b ha)
    rw [kept, List.foldl_cons]
    rcases keep_cases first second held b with hkeep | ⟨hnewer, hkeep⟩
    · rw [hkeep] at hrest ⊢
      exact hrest
    · have hup : Up first second S held b := ⟨h b List.mem_cons_self, hnewer⟩
      rw [hkeep] at hrest ⊢
      rcases hrest with hsame | hrise
      · right
        rw [kept] at hsame
        rw [hsame]
        exact .single hup
      · exact .inr (.head hup hrise)

/-- **A register comes back exactly across a crossing.** -/
theorem neverBack_iff (S : Set α) :
    NeverBack first second S ↔ ¬ Crossing first second S := by
  constructor
  · rintro hback ⟨a, haS, e, heS, b, hbS, i, p, q, j, r, hi, hp, he, hq, hj, hr, hrq, hqp, hij⟩
    have hba : newer first second b a = some true := newer_iff.mpr (.inl ⟨j, i, hj, hi, hij⟩)
    have heb : newer first second e b = some true :=
      newer_iff.mpr (.inr ⟨.inl he, q, r, hq, hr, hrq⟩)
    have hae : newer first second a e = some true :=
      newer_iff.mpr (.inr ⟨.inr he, p, q, hp, hq, hqp⟩)
    have hmem : ∀ t ∈ [b] ++ [e, a], t ∈ S := by simp [haS, heS, hbS]
    refine hback a haS [b] [e, a] hmem ?_ ?_
    · show keep first second a b ≠ a
      rw [keep_of_newer hba]
      rintro rfl
      exact newer_irrefl b hba
    · show keep first second (keep first second (keep first second a b) e) a = a
      rw [keep_of_newer hba, keep_of_newer heb, keep_of_newer hae]
  · intro hS held hheld before after hmem hne heq
    have hbefore := kept_cases first second held before fun a ha =>
      hmem a (List.mem_append_left after ha)
    have hafter := kept_cases first second (kept first second held before) after fun a ha =>
      hmem a (List.mem_append_right before ha)
    have hrise := hbefore.resolve_left hne
    have hsplit : kept first second (kept first second held before) after = held :=
      List.foldl_append.symm.trans heq
    rw [hsplit] at hafter
    rcases hafter with hsame | hback
    · exact hne hsame.symm
    · exact not_cycle hS hheld (hrise.trans hback)

/-- Stamps that never order two values oppositely do not cross. -/
theorem neverBack_of_agree (h : ∀ a ∈ S, ∀ b ∈ S, ∀ i p j r, first a = some i → second a = some p →
    first b = some j → second b = some r → i < j → p ≤ r) : NeverBack first second S := by
  refine (neverBack_iff S).mpr ?_
  rintro ⟨a, haS, e, heS, b, hbS, i, p, q, j, r, hi, hp, -, -, hj, hr, hrq, hqp, hij⟩
  exact absurd (lt_trans hrq hqp) (not_lt_of_ge (h a haS b hbS i p j r hi hp hj hr hij))

end McpFramework.Lib.TwoStamps
