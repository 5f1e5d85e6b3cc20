import Mathlib.Data.List.Range
import Mathlib.Logic.Function.Iterate

/-! # One-way chains

A chain is hashed backwards from its last value; element `i` of a chain of `n` steps is
`f^[n - i] last`. Walking down from a candidate collects the values between it and a
trusted element. With `f` injective, a walk that ends in the trusted element started
from an element of the chain.
-/

namespace HashChain

variable {α : Type*} (f : α → α)

/-- The chain of `n` steps that ends in `last`, built backwards. -/
def build (last : α) : ℕ → List α
  | 0 => [last]
  | n + 1 => f ((build last n).headD last) :: build last n

def element (last : α) (n i : ℕ) : α := f^[n - i] last

variable {f} {last : α} {n i j : ℕ}

theorem build_getElem? (hi : i ≤ n) : (build f last n)[i]? = some (element f last n i) := by
  induction n generalizing i with
  | zero =>
    obtain rfl : i = 0 := by omega
    rfl
  | succ n ih =>
    cases i with
    | zero =>
      have hhead : (build f last n).headD last = f^[n] last := by
        rw [List.headD_eq_head?_getD, List.head?_eq_getElem?, ih (Nat.zero_le n)]
        rfl
      rw [build, List.getElem?_cons_zero, hhead, ← Function.iterate_succ_apply' f n]
      rfl
    | succ i =>
      simpa [build, element] using ih (i := i) (by omega)

theorem iterate_element (hi : i ≤ n) (hj : j ≤ i) :
    f^[i - j] (element f last n i) = element f last n j := by
  rw [element, element, ← Function.iterate_add_apply]
  congr 2
  omega

theorem step_element (hi : i < n) : f (element f last n (i + 1)) = element f last n i := by
  have h : f^[i + 1 - i] (element f last n (i + 1)) = element f last n i :=
    iterate_element hi (Nat.le_add_right i 1)
  simpa using h

theorem element_element (hi : i ≤ n) (hj : j ≤ i) :
    element f (element f last n i) i j = element f last n j :=
  iterate_element hi hj

theorem eq_element (hf : f.Injective) (hi : i ≤ n) (hj : j ≤ i) {x : α}
    (h : f^[i - j] x = element f last n j) : x = element f last n i := by
  rw [← iterate_element hi hj] at h
  exact hf.iterate _ h

/-- Walk `gap` steps down from a candidate for index `index`, collecting the values above
the trusted index: the last value and the numbered values on the way. -/
def walkDown (f : α → α) (index trusted gap : ℕ) (candidate : α) : α × List (ℕ × α) :=
  (List.range' 1 gap).foldl
    (fun acc s =>
      let k := f acc.1
      (k, if trusted < index - s then acc.2 ++ [(index - s, k)] else acc.2))
    (candidate, [(index, candidate)])

variable {index trusted gap : ℕ} {candidate : α}

theorem walkDown_succ (m : ℕ) :
    walkDown f index trusted (m + 1) candidate =
      (f (walkDown f index trusted m candidate).1,
        if trusted < index - (m + 1) then
          (walkDown f index trusted m candidate).2 ++
            [(index - (m + 1), f (walkDown f index trusted m candidate).1)]
        else (walkDown f index trusted m candidate).2) := by
  simp [walkDown, List.range'_concat, Nat.add_comm 1 m]

theorem walkDown_fst (m : ℕ) : (walkDown f index trusted m candidate).1 = f^[m] candidate := by
  induction m with
  | zero => rfl
  | succ m ih => rw [walkDown_succ, ih, Function.iterate_succ_apply']

theorem walkDown_snd {m : ℕ} (hm : trusted + m < index) :
    (walkDown f index trusted m candidate).2 =
      (List.range (m + 1)).map fun s => (index - s, f^[s] candidate) := by
  induction m with
  | zero => rfl
  | succ m ih =>
    rw [walkDown_succ, if_pos (by omega), ih (by omega), walkDown_fst,
      List.range_succ (n := m + 1), List.map_append, ← Function.iterate_succ_apply' f m]
    rfl

theorem walkDown_eq (hgap : index = trusted + gap) (hpos : 0 < gap) :
    walkDown f index trusted gap candidate =
      (f^[gap] candidate, (List.range gap).map fun s => (index - s, f^[s] candidate)) := by
  obtain ⟨m, rfl⟩ : ∃ m, gap = m + 1 := ⟨gap - 1, by omega⟩
  rw [Prod.ext_iff]
  refine ⟨walkDown_fst _, ?_⟩
  rw [walkDown_succ, if_neg (by omega), walkDown_snd (by omega)]

theorem reverse_walkDown (hgap : index = trusted + gap) (hpos : 0 < gap) :
    (walkDown f index trusted gap candidate).2.reverse =
      (List.range' (trusted + 1) gap).map fun j => (j, element f candidate index j) := by
  rw [walkDown_eq hgap hpos]
  apply List.ext_getElem
  · simp
  · intro m h₁ h₂
    have hm : m < gap := by simpa using h₂
    simp only [List.getElem_reverse, List.getElem_map, List.getElem_range, List.length_map,
      List.length_range, List.getElem_range', element]
    rw [Prod.mk.injEq]
    refine ⟨by omega, ?_⟩
    congr 1
    omega

end HashChain
