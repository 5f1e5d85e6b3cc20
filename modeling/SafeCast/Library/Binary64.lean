import Mathlib.Data.Nat.Log
import Mathlib.Tactic.Positivity
import Mathlib.Tactic.Ring

/-! # Natural numbers in double precision

A double keeps 53 significant bits and rounds to the nearest, ties to even. `mulRound` is the
product of a natural number and a constant below one, computed in doubles and rounded to an
integer, halves up.
-/

namespace Binary64

def ofNat (n : ℕ) : ℕ :=
  let unit := 2 ^ (Nat.log2 n - 52)
  let quotient := n / unit
  let rest := n % unit
  if unit < 2 * rest ∨ unit = 2 * rest ∧ quotient % 2 = 1 then (quotient + 1) * unit
  else quotient * unit

/-- `(n as f64 * q).round()` for the constant `q = c / 2 ^ s`; scaling by a power of two is
exact. -/
def mulRound (n c s : ℕ) : ℕ := (ofNat (ofNat n * c) + 2 ^ (s - 1)) / 2 ^ s

theorem ofNat_le (n : ℕ) : 2 ^ 53 * ofNat n ≤ (2 ^ 53 + 1) * n := by
  by_cases hsmall : Nat.log2 n ≤ 52
  · have hunit : Nat.log2 n - 52 = 0 := by omega
    have hself : ofNat n = n := by
      unfold ofNat
      rw [hunit]
      simp [Nat.mod_one]
    rw [hself]
    omega
  · have hn : n ≠ 0 := by
      rintro rfl
      simp at hsmall
    have hlog : 2 ^ 52 * 2 ^ (Nat.log2 n - 52) ≤ n := by
      rw [← pow_add, show 52 + (Nat.log2 n - 52) = Nat.log2 n by omega]
      exact Nat.log2_self_le hn
    have hdiv := Nat.div_add_mod' n (2 ^ (Nat.log2 n - 52))
    unfold ofNat
    dsimp only
    generalize 2 ^ (Nat.log2 n - 52) = unit at hlog hdiv ⊢
    split_ifs with hup
    · rw [Nat.add_mul, Nat.one_mul]
      omega
    · omega

/-- A constant that is below one by more than the rounding does not lead above `n`. -/
theorem mulRound_le {n c s : ℕ} (hs : 1 ≤ s) (hc : (2 ^ 53 + 1) ^ 2 * c ≤ 2 ^ 106 * 2 ^ s) :
    mulRound n c s ≤ n := by
  have hn := ofNat_le n
  have hproduct := ofNat_le (ofNat n * c)
  have hle : ofNat (ofNat n * c) ≤ n * 2 ^ s := by
    have hchain : 2 ^ 106 * ofNat (ofNat n * c) ≤ 2 ^ 106 * (n * 2 ^ s) :=
      calc 2 ^ 106 * ofNat (ofNat n * c)
          = 2 ^ 53 * (2 ^ 53 * ofNat (ofNat n * c)) := by ring
        _ ≤ 2 ^ 53 * ((2 ^ 53 + 1) * (ofNat n * c)) := Nat.mul_le_mul_left _ hproduct
        _ = (2 ^ 53 + 1) * c * (2 ^ 53 * ofNat n) := by ring
        _ ≤ (2 ^ 53 + 1) * c * ((2 ^ 53 + 1) * n) := Nat.mul_le_mul_left _ hn
        _ = (2 ^ 53 + 1) ^ 2 * c * n := by ring
        _ ≤ 2 ^ 106 * 2 ^ s * n := Nat.mul_le_mul_right _ hc
        _ = 2 ^ 106 * (n * 2 ^ s) := by ring
    exact Nat.le_of_mul_le_mul_left hchain (by positivity)
  have hhalf : 2 ^ (s - 1) < 2 ^ s := Nat.pow_lt_pow_right (by decide) (by omega)
  unfold mulRound
  rw [← Nat.lt_succ_iff, Nat.div_lt_iff_lt_mul (by positivity), Nat.succ_mul]
  omega

end Binary64
