import SafeCast.Library.RunningMax

/-! # Replay windows over positions

A replay window of width `w` remembers the positions it let pass. A position passes if it
is new and less than `w` behind the highest one before it, so no position passes twice.
-/

namespace AntiReplay

variable {w i : ℕ} {passed : List ℕ}

inductive Ruling where
  | fresh
  | seen
  | old
  deriving DecidableEq, Repr

/-- The highest position that passed, zero before the first. -/
def top (passed : List ℕ) : ℕ := passed.max?.getD 0

def rule (w : ℕ) (passed : List ℕ) (i : ℕ) : Ruling :=
  if i + w ≤ top passed then .old else if i ∈ passed then .seen else .fresh

/-- Feed a window one residue after the other, each read as a position next to the highest
one, and collect its answers. -/
def answers (w : ℕ) (read : ℕ → ℕ → ℕ) : List ℕ → List ℕ → List Ruling
  | _, [] => []
  | passed, s :: ss =>
    let i := read (top passed) s
    rule w passed i ::
      answers w read (if rule w passed i = .fresh then passed ++ [i] else passed) ss

theorem le_top {j : ℕ} (h : j ∈ passed) : j ≤ top passed := by
  obtain ⟨m, hm, hle⟩ := RunningMax.exists_max? h
  rw [top, hm]
  exact hle

theorem top_concat (passed : List ℕ) (i : ℕ) : top (passed ++ [i]) = max (top passed) i := by
  rw [top, RunningMax.max?_concat, top]
  cases passed.max? <;> simp

theorem rule_eq_fresh : rule w passed i = .fresh ↔ top passed < i + w ∧ i ∉ passed := by
  unfold rule
  split_ifs with hold hseen
  · simp [hold]
  · simp [hseen]
  · exact iff_of_true rfl ⟨not_le.mp hold, hseen⟩

theorem rule_of_top_lt (h : top passed < i) : rule w passed i = .fresh :=
  rule_eq_fresh.mpr ⟨by omega, fun hi => absurd (le_top hi) (not_le.mpr h)⟩

theorem nodup_concat (h : passed.Nodup) (hi : rule w passed i = .fresh) :
    (passed ++ [i]).Nodup := by
  rw [← List.concat_eq_append]
  exact h.concat (rule_eq_fresh.mp hi).2

end AntiReplay
