import Mathlib.Algebra.GroupWithZero.Nat
import Mathlib.Data.List.Lex
import Mathlib.Order.Lattice
import Mathlib.Tactic.Common

/-!
# Lib — Decimal

Numbers written with a fixed number of decimal digits. Such texts are in the
lexicographic order when the numbers are in theirs, and so are texts made of
several of them.
-/

namespace McpFramework.Lib

/-! ## Lexicographic order -/

section Lex

variable {α : Type*} [LinearOrder α] {as bs cs ds : List α}

/-- What is of equal length is compared first. -/
theorem append_lt_append_iff (h : as.length = bs.length) :
    as ++ cs < bs ++ ds ↔ as < bs ∨ as = bs ∧ cs < ds := by
  induction as generalizing bs with
  | nil =>
    cases bs with
    | nil => simp
    | cons b bs => cases h
  | cons a as ih =>
    cases bs with
    | nil => cases h
    | cons b bs =>
      have hlen : as.length = bs.length := Nat.succ.inj h
      rw [List.cons_append, List.cons_append, List.cons_lt_cons_iff, List.cons_lt_cons_iff,
        ih hlen, List.cons.injEq]
      tauto

end Lex

/-! ## Digits -/

def digitChar (d : Nat) : Char := Char.ofNat (48 + d)

def isDigit (c : Char) : Bool := 48 ≤ c.toNat && c.toNat ≤ 57

theorem toNat_digitChar {d : Nat} (h : d < 10) : (digitChar d).toNat = 48 + d := by
  have hall : ∀ d < 10, (digitChar d).toNat = 48 + d := by decide
  exact hall d h

theorem isDigit_digitChar {d : Nat} (h : d < 10) : isDigit (digitChar d) = true := by
  have hnat := toNat_digitChar h
  rw [isDigit, hnat, Bool.and_eq_true, decide_eq_true_eq, decide_eq_true_eq]
  omega

theorem exists_digitChar {c : Char} (h : isDigit c = true) : ∃ d < 10, c = digitChar d := by
  rw [isDigit, Bool.and_eq_true, decide_eq_true_eq, decide_eq_true_eq] at h
  refine ⟨c.toNat - 48, by omega, ?_⟩
  rw [digitChar, show 48 + (c.toNat - 48) = c.toNat by omega, Char.ofNat_toNat]

theorem digitChar_lt_iff {d e : Nat} (hd : d < 10) (he : e < 10) :
    digitChar d < digitChar e ↔ d < e := by
  show (digitChar d).toNat < (digitChar e).toNat ↔ d < e
  rw [toNat_digitChar hd, toNat_digitChar he]
  omega

theorem digitChar_inj {d e : Nat} (hd : d < 10) (he : e < 10) (h : digitChar d = digitChar e) :
    d = e := by
  have hnat : (digitChar d).toNat = (digitChar e).toNat := by rw [h]
  rw [toNat_digitChar hd, toNat_digitChar he] at hnat
  omega

/-! ## Fixed width -/

/-- `k` digits, the first one first. -/
def decimal : Nat → Nat → List Char
  | 0, _ => []
  | k + 1, n => digitChar (n / 10 ^ k) :: decimal k (n % 10 ^ k)

@[simp] theorem length_decimal (k n : Nat) : (decimal k n).length = k := by
  induction k generalizing n with
  | zero => rfl
  | succ k ih => rw [decimal, List.length_cons, ih]

theorem div_lt_ten {k n : Nat} (h : n < 10 ^ (k + 1)) : n / 10 ^ k < 10 := by
  rw [Nat.div_lt_iff_lt_mul (Nat.pow_pos (by omega)), Nat.mul_comm]
  rw [Nat.pow_succ] at h
  exact h

theorem isDigit_of_mem_decimal {k n : Nat} (h : n < 10 ^ k) {c : Char} (hc : c ∈ decimal k n) :
    isDigit c = true := by
  induction k generalizing n with
  | zero => cases hc
  | succ k ih =>
    rcases List.mem_cons.mp hc with rfl | hc
    · exact isDigit_digitChar (div_lt_ten h)
    · exact ih (Nat.mod_lt _ (Nat.pow_pos (by omega))) hc

theorem decimal_inj {k n m : Nat} (hn : n < 10 ^ k) (hm : m < 10 ^ k)
    (h : decimal k n = decimal k m) : n = m := by
  induction k generalizing n m with
  | zero =>
    rw [Nat.pow_zero] at hn hm
    omega
  | succ k ih =>
    have hpos : 0 < 10 ^ k := Nat.pow_pos (by omega)
    obtain ⟨hhead, htail⟩ := List.cons.inj h
    have hdiv := digitChar_inj (div_lt_ten hn) (div_lt_ten hm) hhead
    have hmod := ih (Nat.mod_lt n hpos) (Nat.mod_lt m hpos) htail
    rw [← Nat.div_add_mod n (10 ^ k), ← Nat.div_add_mod m (10 ^ k), hdiv, hmod]

/-- Texts of one width are ordered as their numbers. -/
theorem decimal_lt_iff {k n m : Nat} (hn : n < 10 ^ k) (hm : m < 10 ^ k) :
    decimal k n < decimal k m ↔ n < m := by
  induction k generalizing n m with
  | zero =>
    rw [Nat.pow_zero] at hn hm
    simp [decimal]
    omega
  | succ k ih =>
    have hpos : 0 < 10 ^ k := Nat.pow_pos (by omega)
    have hnn := Nat.div_add_mod n (10 ^ k)
    have hmm := Nat.div_add_mod m (10 ^ k)
    have hnlt := Nat.mod_lt n hpos
    have hmlt := Nat.mod_lt m hpos
    rw [decimal, decimal, List.cons_lt_cons_iff,
      digitChar_lt_iff (div_lt_ten hn) (div_lt_ten hm), ih hnlt hmlt]
    constructor
    · rintro (hlt | ⟨heq, hlt⟩)
      · calc
          n = 10 ^ k * (n / 10 ^ k) + n % 10 ^ k := hnn.symm
          _ < 10 ^ k * (n / 10 ^ k + 1) := by rw [Nat.mul_succ]; omega
          _ ≤ 10 ^ k * (m / 10 ^ k) := Nat.mul_le_mul_left _ hlt
          _ ≤ m := by omega
      · have hdiv := digitChar_inj (div_lt_ten hn) (div_lt_ten hm) heq
        rw [hdiv] at hnn
        omega
    · intro hlt
      rcases Nat.lt_or_ge (n / 10 ^ k) (m / 10 ^ k) with hdiv | hdiv
      · exact Or.inl hdiv
      · have heq : n / 10 ^ k = m / 10 ^ k :=
          Nat.le_antisymm (Nat.div_le_div_right (Nat.le_of_lt hlt)) hdiv
        rw [heq] at hnn ⊢
        exact Or.inr ⟨rfl, by omega⟩

/-- Digits are the text of a number. -/
theorem exists_decimal {cs : List Char} (h : ∀ c ∈ cs, isDigit c = true) :
    ∃ n < 10 ^ cs.length, cs = decimal cs.length n := by
  induction cs with
  | nil => exact ⟨0, by simp, rfl⟩
  | cons c cs ih =>
    obtain ⟨d, hd, rfl⟩ := exists_digitChar (h c List.mem_cons_self)
    obtain ⟨n, hn, hcs⟩ := ih fun c' hc' => h c' (List.mem_cons_of_mem _ hc')
    have hpos : 0 < 10 ^ cs.length := Nat.pow_pos (by omega)
    refine ⟨10 ^ cs.length * d + n, ?_, ?_⟩
    · rw [List.length_cons, Nat.pow_succ]
      calc
        10 ^ cs.length * d + n < 10 ^ cs.length * (d + 1) := by rw [Nat.mul_succ]; omega
        _ ≤ 10 ^ cs.length * 10 := Nat.mul_le_mul_left _ hd
    · rw [List.length_cons, decimal, Nat.mul_add_div hpos, Nat.div_eq_of_lt hn, Nat.add_zero,
        Nat.mul_add_mod, Nat.mod_eq_of_lt hn, ← hcs]

end McpFramework.Lib
