import Mathlib.Data.List.Sort

/-! # Stable sorting by a key

Sorting by a key keeps the order of elements with equal keys: a list that is ordered by `S`
is sorted lexicographically, by the key first and by `S` second.
-/

namespace SortByKey

variable {α κ : Type*} [LinearOrder κ] {key : α → κ} {S : α → α → Prop} {a : α} {l : List α}

def sortByKey (key : α → κ) (l : List α) : List α := l.insertionSort fun a b => key a ≤ key b

/-- By the key, and by `S` where the keys are equal. -/
def Before (key : α → κ) (S : α → α → Prop) (a b : α) : Prop :=
  key a < key b ∨ key a = key b ∧ S a b

theorem Before.key_le {b : α} (h : Before key S a b) : key a ≤ key b := by
  rcases h with h | ⟨h, -⟩
  · exact h.le
  · exact h.le

theorem pairwise_orderedInsert (hl : l.Pairwise (Before key S)) (ha : ∀ b ∈ l, S a b) :
    (l.orderedInsert (fun a b => key a ≤ key b) a).Pairwise (Before key S) := by
  induction l with
  | nil => simp
  | cons b l ih =>
    obtain ⟨hb, hl⟩ := List.pairwise_cons.mp hl
    rw [List.orderedInsert_cons]
    split_ifs with hle
    · have hbefore : ∀ c ∈ b :: l, Before key S a c := by
        intro c hc
        have hkey : key a ≤ key c := by
          rcases List.mem_cons.mp hc with rfl | hc
          · exact hle
          · exact hle.trans (hb c hc).key_le
        rcases hkey.lt_or_eq with hlt | heq
        · exact .inl hlt
        · exact .inr ⟨heq, ha c hc⟩
      exact List.pairwise_cons.mpr ⟨hbefore, List.pairwise_cons.mpr ⟨hb, hl⟩⟩
    · refine List.pairwise_cons.mpr ⟨?_, ih hl fun c hc => ha c (List.mem_cons_of_mem _ hc)⟩
      intro c hc
      rcases (List.mem_orderedInsert _).mp hc with rfl | hc
      · exact .inl (not_le.mp hle)
      · exact hb c hc

theorem perm_sortByKey (key : α → κ) (l : List α) : (sortByKey key l).Perm l :=
  List.perm_insertionSort _ l

theorem pairwise_sortByKey (hl : l.Pairwise S) : (sortByKey key l).Pairwise (Before key S) := by
  induction l with
  | nil => exact List.Pairwise.nil
  | cons a l ih =>
    obtain ⟨ha, hl⟩ := List.pairwise_cons.mp hl
    apply pairwise_orderedInsert (ih hl)
    intro b hb
    exact ha b ((perm_sortByKey key l).mem_iff.mp hb)

theorem key_le_of_getLast? (ha : (sortByKey key l).getLast? = some a) :
    a ∈ l ∧ ∀ b ∈ l, key b ≤ key a := by
  have hsorted : (sortByKey key l).Pairwise (Before key fun _ _ => True) :=
    pairwise_sortByKey (List.pairwise_of_forall fun _ _ => trivial)
  have hperm := perm_sortByKey key l
  obtain ⟨front, hfront⟩ := List.getLast?_eq_some_iff.mp ha
  rw [hfront] at hsorted hperm
  refine ⟨hperm.mem_iff.mp (by simp), ?_⟩
  intro b hb
  rcases List.mem_append.mp (hperm.mem_iff.mpr hb) with hb | hb
  · exact ((List.pairwise_append.mp hsorted).2.2 b hb a (List.mem_singleton_self a)).key_le
  · rw [List.mem_singleton.mp hb]

end SortByKey
