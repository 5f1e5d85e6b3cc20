import Mathlib.Data.List.Basic

/-! # Components that serve many parties

A component that answers every input, where each input belongs to a party. If the inputs of
the others do not change what a party sees, the answers to one party are those of a
component that serves this party alone. The bound counts the inputs that are still to come.
-/

namespace Multiplex

variable {S T I O : Type*}

def answers (step : S → I → O × S) : S → List I → List O
  | _, [] => []
  | s, i :: is => (step s i).1 :: answers step (step s i).2 is

def answersTo (p : I → Bool) (step : S → I → O × S) (s : S) (is : List I) : List O :=
  ((is.zip (answers step s is)).filter fun x => p x.1).map Prod.snd

variable {step : S → I → O × S} {step' : T → I → O × T} {p : I → Bool} {R : ℕ → S → T → Prop}

theorem answersTo_eq (hown : ∀ n s t i, p i = true → R (n + 1) s t →
      (step s i).1 = (step' t i).1 ∧ R n (step s i).2 (step' t i).2)
    (hother : ∀ n s t i, p i = false → R (n + 1) s t → R n (step s i).2 t) (is : List I) :
    ∀ s t, R is.length s t → answersTo p step s is = answers step' t (is.filter p) := by
  induction is with
  | nil => exact fun _ _ _ => rfl
  | cons i is ih =>
    intro s t h
    cases hp : p i with
    | true =>
      obtain ⟨hanswer, hnext⟩ := hown _ s t i hp h
      have hrest := ih _ _ hnext
      simp only [answersTo] at hrest
      simp [answersTo, answers, hp, hanswer, hrest]
    | false =>
      have hrest := ih _ _ (hother _ s t i hp h)
      simp only [answersTo] at hrest
      simp [answersTo, answers, hp, hrest]

end Multiplex
