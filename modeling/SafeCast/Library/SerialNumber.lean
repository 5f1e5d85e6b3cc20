import Mathlib.Algebra.Order.Group.Unbundled.Int
import Mathlib.Data.Int.Lemmas
import Mathlib.Data.Int.ModEq
import Mathlib.Tactic.LinearCombination

/-! # Unwrapping a cyclic counter

A position is sent as its residue modulo `2 * m`. Given a reference position, the
residue is read as the nearest candidate: `delta` is its signed distance from the
reference, `unwrap` the candidate, or the bare residue where the candidate would be
negative.
-/

namespace SerialNumber

variable {m h s : ℕ}

/-- The signed distance from `h` to the nearest position with residue `s`. -/
def delta (m h s : ℕ) : ℤ :=
  if h % (2 * m) < m then
    if (s : ℤ) - ↑(h % (2 * m)) > m then s - ↑(h % (2 * m)) - 2 * m else s - ↑(h % (2 * m))
  else if (↑(h % (2 * m)) : ℤ) - m > s then s - ↑(h % (2 * m)) + 2 * m
  else s - ↑(h % (2 * m))

def unwrap (m h s : ℕ) : ℕ := if 0 ≤ h + delta m h s then (h + delta m h s).toNat else s

theorem abs_delta_le (hs : s < 2 * m) : |delta m h s| ≤ m := by
  have hl : h % (2 * m) < 2 * m := Nat.mod_lt _ (by omega)
  unfold delta
  rw [abs_le]
  split_ifs <;> omega

theorem delta_dvd (m h s : ℕ) : (2 * m : ℤ) ∣ h + delta m h s - s := by
  have hdiv : (h : ℤ) = 2 * m * ↑(h / (2 * m)) + ↑(h % (2 * m)) := by
    exact_mod_cast (Nat.div_add_mod h (2 * m)).symm
  unfold delta
  split_ifs
  · exact ⟨↑(h / (2 * m)) - 1, by linear_combination hdiv⟩
  · exact ⟨↑(h / (2 * m)), by linear_combination hdiv⟩
  · exact ⟨↑(h / (2 * m)) + 1, by linear_combination hdiv⟩
  · exact ⟨↑(h / (2 * m)), by linear_combination hdiv⟩

theorem delta_of_candidate {x : ℤ} (hs : s < 2 * m) (hdvd : (2 * m : ℤ) ∣ x - s)
    (hnear : |x - h| < m) : delta m h s = x - h := by
  have hle := abs_le.mp (abs_delta_le (h := h) hs)
  have hlt := abs_lt.mp hnear
  have hdiff : (2 * m : ℤ) ∣ delta m h s - (x - h) := by
    have := dvd_sub (delta_dvd m h s) hdvd
    rwa [show (h : ℤ) + delta m h s - s - (x - s) = delta m h s - (x - h) by omega] at this
  have hzero := Int.eq_zero_of_abs_lt_dvd hdiff (abs_lt.mpr ⟨by omega, by omega⟩)
  omega

theorem delta_of_near {t : ℕ} (hm : 0 < m) (hnear : |(t : ℤ) - h| < m) :
    delta m h (t % (2 * m)) = t - h := by
  refine delta_of_candidate (Nat.mod_lt _ (by omega)) ?_ hnear
  exact_mod_cast Int.dvd_self_sub_emod (x := (t : ℤ)) (m := ((2 * m : ℕ) : ℤ))

theorem unwrap_of_near {t : ℕ} (hm : 0 < m) (hnear : |(t : ℤ) - h| < m) :
    unwrap m h (t % (2 * m)) = t := by
  rw [unwrap, delta_of_near hm hnear, if_pos (by omega)]
  omega

theorem unwrap_of_nonneg (hd : 0 ≤ h + delta m h s) :
    (unwrap m h s : ℤ) = h + delta m h s := by
  rw [unwrap, if_pos hd]
  omega

theorem unwrap_of_neg (hd : h + delta m h s < 0) : unwrap m h s = s := by
  rw [unwrap, if_neg (by omega)]

theorem unwrap_mod (hs : s < 2 * m) : unwrap m h s % (2 * m) = s := by
  by_cases hd : 0 ≤ h + delta m h s
  · have hdvd := delta_dvd m h s
    rw [← unwrap_of_nonneg hd] at hdvd
    have hmod : s ≡ unwrap m h s [MOD 2 * m] := Nat.modEq_iff_dvd.mpr (by exact_mod_cast hdvd)
    exact Eq.trans hmod.symm (Nat.mod_eq_of_lt hs)
  · rw [unwrap_of_neg (by omega), Nat.mod_eq_of_lt hs]

/-- The position is at most half a cycle away, unless a candidate below zero is nearer. -/
theorem abs_unwrap_sub_le (hs : s < 2 * m)
    (hneg : ∀ x : ℤ, x < 0 → (2 * m : ℤ) ∣ x - s → ¬ |x - h| < m) :
    |(unwrap m h s : ℤ) - h| ≤ m := by
  have hle := abs_delta_le (h := h) hs
  by_cases hd : 0 ≤ h + delta m h s
  · rwa [unwrap_of_nonneg hd, add_sub_cancel_left]
  · -- the candidate below zero is less than half a cycle away
    exfalso
    refine hneg _ (not_le.mp hd) (delta_dvd m h s) ?_
    rw [add_sub_cancel_left]
    have := abs_le.mp hle
    refine abs_lt.mpr ⟨lt_of_le_of_ne this.1 ?_, by omega⟩
    intro heq
    have hmod : h % (2 * m) = h := Nat.mod_eq_of_lt (by omega)
    unfold delta at heq
    rw [hmod] at heq
    split_ifs at heq <;> omega

theorem unwrap_zero (hs : s < 2 * m) : unwrap m 0 s = s := by
  have hdelta : delta m 0 s = s ∨ delta m 0 s < 0 := by
    unfold delta
    rw [Nat.zero_mod]
    split_ifs <;> omega
  unfold unwrap
  split_ifs <;> omega

end SerialNumber
