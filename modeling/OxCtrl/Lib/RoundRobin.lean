import Mathlib.Algebra.BigOperators.Intervals

/-!
# Giving out items in turn

`k` items are given to `n` places one after another, starting again behind the last place.
-/

namespace OxCtrl.Lib

/-- Items of a place. -/
def turnShare (n k j : Nat) : Nat :=
  k / n + if j < k % n then 1 else 0

theorem turnShare_zero (n j : Nat) : turnShare n 0 j = 0 := by
  simp [turnShare]

/-- The turn behind the last place. -/
theorem turn_wrap {n : Nat} (pos : 0 < n) {k : Nat} (last : k % n + 1 = n) :
    (k + 1) % n = 0 ∧ (k + 1) / n = k / n + 1 := by
  have whole : k + 1 = n * (k / n + 1) := by
    have parts := Nat.div_add_mod k n
    rw [Nat.mul_add]
    omega
  rw [whole]
  exact ⟨Nat.mul_mod_right .., Nat.mul_div_cancel_left _ pos⟩

/-- The turn behind another place. -/
theorem turn_next {n : Nat} {k : Nat} (lt : k % n + 1 < n) :
    (k + 1) % n = k % n + 1 ∧ (k + 1) / n = k / n := by
  have parts : k + 1 = n * (k / n) + (k % n + 1) := by
    rw [← Nat.add_assoc, Nat.div_add_mod]
  constructor
  · conv_lhs => rw [parts]
    rw [Nat.mul_add_mod, Nat.mod_eq_of_lt lt]
  · conv_lhs => rw [parts]
    rw [Nat.mul_add_div (Nat.zero_lt_of_lt lt), Nat.div_eq_of_lt lt, Nat.add_zero]

/-- The next item goes to the next place. -/
theorem turnShare_succ {n : Nat} (pos : 0 < n) (k : Nat) {j : Nat} (lt : j < n) :
    turnShare n (k + 1) j = turnShare n k j + if j = k % n then 1 else 0 := by
  have place : k % n < n := Nat.mod_lt k pos
  unfold turnShare
  by_cases last : k % n + 1 = n
  · rw [(turn_wrap pos last).1, (turn_wrap pos last).2]
    split_ifs <;> omega
  · have lt : k % n + 1 < n := Nat.lt_of_le_of_ne place last
    rw [(turn_next lt).1, (turn_next lt).2]
    split_ifs <;> omega

/-- All items are given out. -/
theorem sum_turnShare {n : Nat} (pos : 0 < n) (k : Nat) :
    ∑ j ∈ Finset.range n, turnShare n k j = k := by
  induction k with
  | zero => simp [turnShare_zero]
  | succ k ih =>
      have next : ∑ j ∈ Finset.range n, turnShare n (k + 1) j =
          ∑ j ∈ Finset.range n, (turnShare n k j + if j = k % n then 1 else 0) := by
        apply Finset.sum_congr rfl
        intro j mem
        exact turnShare_succ pos k (Finset.mem_range.mp mem)
      rw [next, Finset.sum_add_distrib, ih, Finset.sum_ite_eq',
        if_pos (Finset.mem_range.mpr (Nat.mod_lt k pos))]

/-- A later place does not get more. -/
theorem turnShare_antitone (n k : Nat) {i j : Nat} (le : i ≤ j) :
    turnShare n k j ≤ turnShare n k i := by
  unfold turnShare
  split_ifs <;> omega

theorem turnShare_le {n k most : Nat} (bound : k ≤ most * n) (j : Nat) :
    turnShare n k j ≤ most := by
  unfold turnShare
  rcases Nat.eq_zero_or_pos n with rfl | pos
  · have none : k = 0 := Nat.le_zero.mp bound
    simp [none]
  · have quotient : k / n ≤ most := Nat.div_le_of_le_mul (Nat.mul_comm most n ▸ bound)
    split_ifs with more
    · apply Nat.lt_of_le_of_ne quotient
      rintro rfl
      have parts := Nat.div_add_mod k n
      rw [Nat.mul_comm] at bound
      omega
    · exact quotient

end OxCtrl.Lib
