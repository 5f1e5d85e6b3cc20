import Mathlib.Data.List.GetD
import Mathlib.Data.List.Nodup
import Mathlib.Data.List.Perm.Lattice
import Mathlib.Data.List.Perm.Subperm
import Mathlib.Data.List.Range

/-! # Numbers read against the largest one before them

A list of numbers is read from left to right. A number is late by its distance behind the
largest one before it, and it skips the numbers between that one and itself. In a list
without repetitions, what is skipped arrives late or not at all.
-/

namespace RunningMax

variable {l : List ℕ} {x k : ℕ}

def newest (l : List ℕ) (k : ℕ) : Option ℕ := (l.take k).max?

def lateness (l : List ℕ) (k : ℕ) : ℕ := (newest l k).elim 0 (· - l.getD k 0)

/-- How many numbers position `k` skips: the first position skips all that are smaller. -/
def skipped (l : List ℕ) (k : ℕ) : ℕ := l.getD k 0 - (newest l k).elim 0 (· + 1)

def latenesses (l : List ℕ) : List ℕ := (List.range l.length).map (lateness l)

def skips (l : List ℕ) : List ℕ := (List.range l.length).map (skipped l)

/-- The numbers below the largest one that are not in the list. -/
def missing (l : List ℕ) : List ℕ := (List.range (l.max?.getD 0)).filter (· ∉ l)

theorem max?_concat (l : List ℕ) (x : ℕ) :
    (l ++ [x]).max? = some (l.max?.elim x (max · x)) := by
  cases l with
  | nil => rfl
  | cons a l => simp only [List.cons_append, List.max?_cons', List.foldl_append,
      List.foldl_cons, List.foldl_nil, Option.elim_some]

theorem le_of_max? {m : ℕ} (h : l.max? = some m) (hx : x ∈ l) : x ≤ m :=
  (List.max?_eq_some_iff.mp h).2 x hx

theorem exists_max? (hx : x ∈ l) : ∃ m, l.max? = some m ∧ x ≤ m := by
  cases h : l.max? with
  | none =>
    rw [List.max?_eq_none_iff.mp h] at hx
    cases hx
  | some m => exact ⟨m, rfl, le_of_max? h hx⟩

theorem length_le_of_lt {n : ℕ} (hl : l.Nodup) (h : ∀ x ∈ l, x < n) : l.length ≤ n := by
  have hsub := List.subperm_of_subset hl fun x hx => List.mem_range.mpr (h x hx)
  rw [← List.length_range (n := n)]
  exact hsub.length_le

theorem lateness_pos_iff : 0 < lateness l k ↔ ∃ y ∈ l.take k, l.getD k 0 < y := by
  unfold lateness newest
  constructor
  · intro h
    cases hm : (l.take k).max? with
    | none =>
      rw [hm] at h
      exact absurd h (lt_irrefl 0)
    | some m =>
      rw [hm, Option.elim_some] at h
      exact ⟨m, List.max?_mem hm, by omega⟩
  · rintro ⟨y, hy, hlt⟩
    obtain ⟨m, hm, hle⟩ := exists_max? hy
    rw [hm, Option.elim_some]
    omega

theorem lateness_lt_of_pairwise {b : ℕ} (h : l.Pairwise fun x y => x < y + b) (hb : 0 < b)
    (hk : k < l.length) : lateness l k < b := by
  unfold lateness newest
  cases hm : (l.take k).max? with
  | none => exact hb
  | some m =>
    have hsplit : l = l.take k ++ l.drop k := (List.take_append_drop k l).symm
    rw [hsplit, List.drop_eq_getElem_cons hk] at h
    have hlt := (List.pairwise_append.mp h).2.2 m (List.max?_mem hm) l[k] List.mem_cons_self
    rw [Option.elim_some, List.getD_eq_getElem _ _ hk]
    omega

/-! ## One more number -/

theorem newest_concat (hk : k ≤ l.length) : newest (l ++ [x]) k = newest l k := by
  rw [newest, newest, List.take_append_of_le_length hk]

theorem latenesses_concat (l : List ℕ) (x : ℕ) :
    latenesses (l ++ [x]) = latenesses l ++ [l.max?.elim 0 (· - x)] := by
  unfold latenesses
  rw [List.length_append, List.length_singleton, List.range_succ, List.map_append]
  congr 1
  · apply List.map_congr_left
    intro k hk
    have hlt := List.mem_range.mp hk
    rw [lateness, lateness, newest_concat hlt.le, List.getD_append _ _ _ _ hlt]
  · simp [lateness, newest]

theorem skips_concat (l : List ℕ) (x : ℕ) :
    skips (l ++ [x]) = skips l ++ [x - l.max?.elim 0 (· + 1)] := by
  unfold skips
  rw [List.length_append, List.length_singleton, List.range_succ, List.map_append]
  congr 1
  · apply List.map_congr_left
    intro k hk
    have hlt := List.mem_range.mp hk
    rw [skipped, skipped, newest_concat hlt.le, List.getD_append _ _ _ _ hlt]
  · simp [skipped, newest]

/-! ## What is skipped -/

/-- Every number is a new largest one, which moves past what it skips, or it is late. -/
theorem total_skips_add_length (hl : l.Nodup) :
    (skips l).foldl (· + ·) 0 + l.length =
      (latenesses l).countP (0 < ·) + l.max?.elim 0 (· + 1) := by
  induction l using List.reverseRecOn with
  | nil => rfl
  | append_singleton l x ih =>
    obtain ⟨hl, -, hx⟩ := List.nodup_append.mp hl
    have ih := ih hl
    rw [skips_concat, latenesses_concat, max?_concat, List.foldl_append, List.countP_append,
      List.length_append, List.length_singleton, Option.elim_some]
    cases hm : l.max? with
    | none =>
      rw [hm] at ih
      simp only [Option.elim_none, List.foldl_cons, List.foldl_nil] at ih ⊢
      simp only [List.countP_singleton, lt_irrefl, decide_false, Bool.false_eq_true, if_false]
      omega
    | some m =>
      have hne : m ≠ x := fun h => hx m (List.max?_mem hm) x (List.mem_singleton_self x) h
      rw [hm] at ih
      simp only [Option.elim_some, List.foldl_cons, List.foldl_nil] at ih ⊢
      simp only [List.countP_singleton, decide_eq_true_eq]
      split_ifs <;> omega

theorem length_add_missing (hl : l.Nodup) :
    l.length + (missing l).length = l.max?.elim 0 (· + 1) := by
  cases hm : l.max? with
  | none => simp [missing, List.max?_eq_none_iff.mp hm]
  | some m =>
    have hmem := List.max?_mem hm
    have hperm : ((List.range (m + 1)).filter (· ∈ l)).Perm l := by
      rw [List.perm_ext_iff_of_nodup (List.nodup_range.filter _) hl]
      intro x
      have hle : x ∈ l → x ≤ m := le_of_max? hm
      simp only [List.mem_filter, List.mem_range, decide_eq_true_eq]
      exact ⟨fun h => h.2, fun h => ⟨by have := hle h; omega, h⟩⟩
    have hrest : (List.range (m + 1)).filter (· ∉ l) = missing l := by
      rw [missing, hm, List.range_succ, List.filter_append, Option.getD_some]
      simp [hmem]
    have hsplit := List.length_eq_length_filter_add (l := List.range (m + 1))
      (fun x => decide (x ∈ l))
    simp only [← decide_not] at hsplit
    rw [hrest, hperm.length_eq, List.length_range] at hsplit
    exact hsplit.symm

theorem total_skips (hl : l.Nodup) :
    (skips l).foldl (· + ·) 0 = (latenesses l).countP (0 < ·) + (missing l).length := by
  have h₁ := total_skips_add_length hl
  have h₂ := length_add_missing hl
  omega

theorem max?_skips_concat (l : List ℕ) (x : ℕ) :
    (skips (l ++ [x])).max?.elim 0 (· + 1) =
      max ((skips l).max?.elim 0 (· + 1))
        ((l ++ [x]).max?.elim 0 (· + 1) - l.max?.elim 0 (· + 1)) := by
  rw [skips_concat, max?_concat, max?_concat, Option.elim_some, Option.elim_some]
  cases hm : l.max? with
  | none =>
    rw [List.max?_eq_none_iff.mp hm]
    simp [skips]
  | some n =>
    have hlen : (skips l).length = l.length := by simp [skips]
    obtain ⟨g, hg⟩ : ∃ g, (skips l).max? = some g := by
      cases hg : (skips l).max? with
      | none =>
        rw [List.max?_eq_none_iff.mp hg, List.length_nil] at hlen
        rw [List.length_eq_zero_iff.mp hlen.symm] at hm
        cases hm
      | some g => exact ⟨g, rfl⟩
    rw [hg]
    simp only [Option.elim_some]
    omega

end RunningMax
