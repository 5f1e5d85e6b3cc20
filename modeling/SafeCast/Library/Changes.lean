import Mathlib.Data.List.Chain
import Mathlib.Data.List.Induction

/-! # Counting changes

How often neighbours in a list differ. A list of numbers that starts at 0 and does not go
back counts its own changes exactly if it skips no number.
-/

namespace Changes

variable {α β : Type*} [DecidableEq α] [DecidableEq β]

def changes : List α → ℕ
  | a :: b :: l => (if a = b then 0 else 1) + changes (b :: l)
  | _ => 0

theorem changes_concat (l : List α) (a b : α) :
    changes (l ++ [a, b]) = changes (l ++ [a]) + if a = b then 0 else 1 := by
  induction l with
  | nil => simp [changes]
  | cons x l ih =>
    cases l with
    | nil => simp [changes]
    | cons y l =>
      simp only [List.cons_append, changes, Nat.add_assoc] at ih ⊢
      rw [ih]

theorem changes_le (l : List α) : changes l ≤ l.length - 1 := by
  induction l with
  | nil => exact le_rfl
  | cons a l ih =>
    cases l with
    | nil => exact le_rfl
    | cons b l =>
      simp only [changes, List.length_cons, Nat.add_sub_cancel] at ih ⊢
      split_ifs <;> omega

theorem changes_map {γ : Type*} {f : γ → α} {g : γ → β} {l : List γ}
    (h : ∀ x ∈ l, ∀ y ∈ l, f x = f y ↔ g x = g y) : changes (l.map f) = changes (l.map g) := by
  induction l with
  | nil => rfl
  | cons x l ih =>
    have htail := ih fun a ha b hb => h a (List.mem_cons_of_mem _ ha) b (List.mem_cons_of_mem _ hb)
    cases l with
    | nil => rfl
    | cons y l =>
      simp only [List.map_cons, changes] at htail ⊢
      rw [htail]
      congr 1
      exact if_congr (h x (by simp) y (by simp)) rfl rfl

/-- Numbers that start at 0 and do not go back count their own changes exactly if none is
skipped. -/
theorem forall_changes_eq_iff {l : List ℕ} (hfirst : ∀ m ∈ l.head?, m = 0)
    (hmono : l.Pairwise (· ≤ ·)) :
    (∀ pre m, pre ++ [m] <+: l → changes (pre ++ [m]) = m) ↔ l.IsChain fun m m' => m' ≤ m + 1 := by
  -- from the right: a longer list has one more prefix, itself
  induction l using List.reverseRecOn with
  | nil => simp
  | append_singleton l b ih =>
    have hsplit : (∀ pre m, pre ++ [m] <+: l ++ [b] → changes (pre ++ [m]) = m) ↔
        (∀ pre m, pre ++ [m] <+: l → changes (pre ++ [m]) = m) ∧ changes (l ++ [b]) = b := by
      constructor
      · intro h
        exact ⟨fun pre m hpre => h pre m (hpre.trans (List.prefix_append l [b])),
          h l b List.prefix_rfl⟩
      · rintro ⟨hl, hb⟩ pre m hpre
        rcases List.prefix_concat_iff.mp hpre with heq | hpre
        · obtain ⟨rfl, hm⟩ := List.append_inj' heq rfl
          obtain rfl := List.singleton_inj.mp hm
          exact hb
        · exact hl pre m hpre
    obtain ⟨hl, -, hlast⟩ := List.pairwise_append.mp hmono
    rcases List.eq_nil_or_concat' l with rfl | ⟨l, a, rfl⟩
    · have hb : b = 0 := hfirst b rfl
      rw [hsplit, hb]
      simp [changes]
    · have hab : a ≤ b := hlast a (by simp) b (by simp)
      have hhead : ∀ m ∈ (l ++ [a]).head?, m = 0 := by
        intro m hm
        apply hfirst m
        rw [List.head?_append_of_ne_nil _ (by simp)]
        exact hm
      have hchain : (l ++ [a] ++ [b]).IsChain (fun m m' => m' ≤ m + 1) ↔
          (l ++ [a]).IsChain (fun m m' => m' ≤ m + 1) ∧ b ≤ a + 1 := by
        rw [List.isChain_append]
        simp
      rw [hsplit, hchain, ← ih hhead hl, List.append_assoc, List.singleton_append, changes_concat]
      apply and_congr_right
      intro h
      rw [h l a List.prefix_rfl]
      split_ifs <;> omega

end Changes
