import Mathlib.Data.List.AList

/-! # Values in buckets

Lists of values under keys, as an association list. `total` counts the values of all
buckets; emptying a bucket and adding to one change it by what they move.
-/

namespace Buckets

variable {κ α : Type*}

def total (b : AList fun _ : κ => List α) : ℕ := (b.entries.flatMap fun e => e.2).length

variable [DecidableEq κ] {b : AList fun _ : κ => List α} {k : κ}

theorem length_flatMap_kerase (l : List (Sigma fun _ : κ => List α)) (k : κ) :
    (l.flatMap fun e => e.2).length =
      ((l.dlookup k).getD []).length + ((l.kerase k).flatMap fun e => e.2).length := by
  induction l with
  | nil => rfl
  | cons e l ih =>
    obtain ⟨k', v⟩ := e
    rw [List.flatMap_cons, List.length_append]
    by_cases hk : k = k'
    · subst hk
      simp [List.kerase_cons_eq]
    · rw [List.kerase_cons_ne hk, List.dlookup_cons_ne _ _ hk, List.flatMap_cons,
        List.length_append, ih]
      omega

theorem total_erase (b : AList fun _ : κ => List α) (k : κ) :
    total b = ((b.lookup k).getD []).length + total (b.erase k) :=
  length_flatMap_kerase b.entries k

theorem total_insert_append (b : AList fun _ : κ => List α) (k : κ) (xs : List α) :
    total (b.insert k ((b.lookup k).getD [] ++ xs)) = total b + xs.length := by
  have hinsert : total (b.insert k ((b.lookup k).getD [] ++ xs)) =
      ((b.lookup k).getD [] ++ xs).length + total (b.erase k) := by
    rw [total, AList.entries_insert, List.flatMap_cons, List.length_append]
    rfl
  rw [hinsert, total_erase b k, List.length_append]
  omega

theorem length_le_total {xs : List α} (h : b.lookup k = some xs) : xs.length ≤ total b := by
  rw [total_erase b k, h]
  exact Nat.le_add_right _ _

end Buckets
