import Mathlib.Data.Int.CardIntervalMod

/-!
# Residues in a window

How often consecutive numbers leave a given remainder: once in every round of
the divisor's length, wherever the round starts.
-/

namespace Residues

/-- Numbers below the divisor are their own remainders. -/
theorem mod_eq_iff_modEq {n i j : ℕ} (hj : j < n) : i % n = j ↔ i ≡ j [MOD n] := by
  rw [Nat.ModEq, Nat.mod_eq_of_lt hj]

/-- In any number of rounds, each remainder is left once a round. -/
theorem count_mod_window {n j : ℕ} (hj : j < n) (k m : ℕ) :
    Nat.count (fun i => (k + i) % n = j) (m * n) = m := by
  have hn : 0 < n := by omega
  have hsplit := Nat.count_add (fun i => i % n = j) k (m * n)
  simp only [mod_eq_iff_modEq hj] at hsplit ⊢
  rw [Nat.count_modEq_card _ hn, Nat.count_modEq_card _ hn, Nat.add_mul_div_right _ _ hn,
    Nat.add_mul_mod_self_right] at hsplit
  omega

/-- In rounds that start at zero, each remainder is left once a round. -/
theorem count_mod {n j : ℕ} (hj : j < n) (m : ℕ) :
    Nat.count (fun i => i % n = j) (m * n) = m := by
  simpa using count_mod_window hj 0 m

/-- In less than a round from `k` on, the remainder of a number outside the
round's part is not left. -/
theorem count_mod_eq_zero {n k r d : ℕ} (hr : r ≤ d) (hd : d < n) :
    Nat.count (fun i => (k + i) % n = (k + d) % n) r = 0 := by
  rw [Nat.count_iff_forall_not]
  intro i hi heq
  have hmod : i ≡ d [MOD n] := Nat.ModEq.add_left_cancel' k heq
  have := hmod.eq_of_lt_of_lt (by omega) hd
  omega

end Residues
