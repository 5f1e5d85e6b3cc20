import Mathlib.Data.List.Perm.Subperm

/-! # First copies

A consumer that drops what it has seen before keeps the first copy of every item.
-/

namespace FirstCopies

variable {α : Type*} [BEq α] [LawfulBEq α] {a : α} {seen l m : List α}

def beyond (seen l : List α) : List α := (l.filter (· ∉ seen)).eraseDups

theorem beyond_nil (l : List α) : beyond [] l = l.eraseDups := by simp [beyond]

theorem mem_beyond : a ∈ beyond seen l ↔ a ∈ l ∧ a ∉ seen := by
  simp [beyond, List.mem_eraseDups]

theorem filter_concat (seen l : List α) (a : α) :
    l.filter (· ∉ seen ++ [a]) = (l.filter (· ∉ seen)).filter (fun b => !b == a) := by
  rw [List.filter_filter]
  congr 1
  funext b
  by_cases hb : b = a <;> simp [hb]

theorem beyond_cons_of_mem (h : a ∈ seen) : beyond seen (a :: l) = beyond seen l := by
  rw [beyond, beyond, List.filter_cons_of_neg (by simp [h])]

theorem beyond_cons_of_not_mem (h : a ∉ seen) :
    beyond seen (a :: l) = a :: beyond (seen ++ [a]) l := by
  rw [beyond, beyond, List.filter_cons_of_pos (by simp [h]), List.eraseDups_cons, filter_concat]

theorem nodup_beyond (seen l : List α) : (beyond seen l).Nodup := by
  induction l generalizing seen with
  | nil => exact List.nodup_nil
  | cons a l ih =>
    by_cases h : a ∈ seen
    · rw [beyond_cons_of_mem h]
      exact ih _
    · rw [beyond_cons_of_not_mem h, List.nodup_cons]
      refine ⟨?_, ih _⟩
      intro hmem
      exact (mem_beyond.mp hmem).2 (by simp)

theorem length_le_of_subset (hseen : seen.Nodup) (hs : ∀ a ∈ seen, a ∈ m) (hl : ∀ a ∈ l, a ∈ m) :
    seen.length + (beyond seen l).length ≤ m.length := by
  rw [← List.length_append]
  apply List.Subperm.length_le
  apply List.subperm_of_subset
  · refine List.nodup_append.mpr ⟨hseen, nodup_beyond seen l, ?_⟩
    rintro a ha b hb rfl
    exact (mem_beyond.mp hb).2 ha
  · intro a ha
    rcases List.mem_append.mp ha with ha | ha
    · exact hs a ha
    · exact hl a (mem_beyond.mp ha).1

end FirstCopies
