import Mathlib.Data.Nat.Bitwise
import Mathlib.Tactic

/-!
Aligned blocks of numbers: a block of order `k` starts at a multiple `i` of `2 ^ k` and has
`2 ^ k` elements. Its buddy starts at `i ^^^ 2 ^ k`, and the two together are the block of order
`k + 1` that starts at `i &&& (i ^^^ 2 ^ k)`.
-/

namespace UcoreKernel.AlignedBlock

lemma and_xor_one_of_even {q : ℕ} (h : Even q) : q &&& (q ^^^ 1) = q := by grind

lemma and_xor_one_of_odd {q : ℕ} (h : Odd q) : q &&& (q ^^^ 1) = q ^^^ 1 := by grind

variable {i k : ℕ}

/-- A block is either the lower half of its parent, and its buddy follows it, or the upper half,
and its buddy comes before it. -/
lemma buddy_cases (h : 2 ^ k ∣ i) : (2 ^ (k + 1) ∣ i ∧ i ^^^ 2 ^ k = i + 2 ^ k ∧ i &&& (i ^^^ 2 ^ k) = i) ∨
      (2 ^ k ≤ i ∧ 2 ^ (k + 1) ∣ i - 2 ^ k ∧ i ^^^ 2 ^ k = i - 2 ^ k ∧ i &&& (i ^^^ 2 ^ k) = i - 2 ^ k) := by
  obtain ⟨q, rfl⟩ := h
  have hshift : ∀ m, 2 ^ k * m = m <<< k := fun m => by rw [Nat.shiftLeft_eq, mul_comm]
  have hxor : 2 ^ k * q ^^^ 2 ^ k = 2 ^ k * (q ^^^ 1) := by
    rw [hshift, hshift, Nat.shiftLeft_xor_distrib, Nat.one_shiftLeft]
  have hand : 2 ^ k * q &&& 2 ^ k * (q ^^^ 1) = 2 ^ k * (q &&& (q ^^^ 1)) := by
    rw [hshift, hshift, hshift, Nat.shiftLeft_and_distrib]
  rw [hxor, hand]
  -- the quotient says which half the block is
  obtain hq | hq := Nat.even_or_odd q
  · rw [and_xor_one_of_even hq, Nat.xor_one_of_even hq]
    obtain ⟨m, rfl⟩ := hq
    exact .inl ⟨⟨m, by ring⟩, by ring, rfl⟩
  · rw [and_xor_one_of_odd hq, Nat.xor_one_of_odd hq]
    obtain ⟨m, rfl⟩ := hq
    have hsub : 2 ^ k * (2 * m + 1) - 2 ^ k = 2 ^ k * (2 * m) := by
      rw [mul_add, mul_one, Nat.add_sub_cancel]
    rw [hsub, Nat.add_sub_cancel]
    exact .inr ⟨Nat.le_mul_of_pos_right _ (by omega), ⟨m, by ring⟩, rfl, rfl⟩

/-- The buddy of a lower half follows it. -/
lemma xor_of_dvd_succ (h : 2 ^ (k + 1) ∣ i) : i ^^^ 2 ^ k = i + 2 ^ k := by
  obtain ⟨-, hx, -⟩ | ⟨hle, hd, -, -⟩ := buddy_cases ((Nat.pow_dvd_pow 2 (Nat.le_succ k)).trans h)
  · exact hx
  · have hdvd : 2 ^ (k + 1) ∣ 2 ^ k := by
      have hsub : i - (i - 2 ^ k) = 2 ^ k := by omega
      rw [← hsub]
      exact Nat.dvd_sub h hd
    exact absurd (Nat.le_of_dvd (Nat.two_pow_pos k) hdvd) (by rw [pow_succ]; have := Nat.two_pow_pos k; omega)

/-- An aligned number whose next bit is clear has the next alignment. -/
lemma dvd_succ_of_and_eq_zero (h : 2 ^ k ∣ i) (hbit : i &&& 2 ^ k = 0) : 2 ^ (k + 1) ∣ i := by
  obtain ⟨q, rfl⟩ := h
  rw [Nat.and_two_pow, Nat.testBit_eq_decide_div_mod_eq, Nat.mul_div_cancel_left q (Nat.two_pow_pos k)] at hbit
  have hq : q % 2 = 0 := by
    by_contra hne
    have hq1 : q % 2 = 1 := by omega
    simp [hq1] at hbit
  obtain ⟨m, rfl⟩ := Nat.dvd_of_mod_eq_zero hq
  exact ⟨m, by ring⟩

/-- An aligned number whose next bit is set has the next alignment one block further on. -/
lemma dvd_succ_of_and_ne_zero (h : 2 ^ k ∣ i) (hbit : i &&& 2 ^ k ≠ 0) : 2 ^ (k + 1) ∣ i + 2 ^ k := by
  obtain ⟨q, rfl⟩ := h
  rw [Nat.and_two_pow, Nat.testBit_eq_decide_div_mod_eq, Nat.mul_div_cancel_left q (Nat.two_pow_pos k)] at hbit
  have hq : q % 2 = 1 := by
    by_contra hne
    simp [hne] at hbit
  obtain ⟨m, hm⟩ : ∃ m, q = 2 * m + 1 := ⟨q / 2, by omega⟩
  exact ⟨m + 1, by rw [hm]; ring⟩

end UcoreKernel.AlignedBlock
