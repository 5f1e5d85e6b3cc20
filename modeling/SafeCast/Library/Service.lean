import Mathlib.Data.List.Basic

/-! # Services

A service answers every request it is sent. Its history holds the exchanges: the requests with
the state they met and the answer they got. A law between the history and the state that every
request keeps holds at all times.
-/

namespace Service

variable {S I O : Type*}

structure Exchange (S I O : Type*) where
  before : S
  request : I
  response : O

variable (step : S → I → O × S)

def after (s : S) (is : List I) : S := is.foldl (fun s i => (step s i).2) s

def history : S → List I → List (Exchange S I O)
  | _, [] => []
  | s, i :: is => ⟨s, i, (step s i).1⟩ :: history (step s i).2 is

theorem after_append (s : S) (is js : List I) :
    after step s (is ++ js) = after step (after step s is) js :=
  List.foldl_append

theorem after_concat (s : S) (is : List I) (i : I) :
    after step s (is ++ [i]) = (step (after step s is) i).2 :=
  after_append step s is [i]

variable {step}

theorem response_of_mem_history {s : S} {is : List I} {e : Exchange S I O}
    (h : e ∈ history step s is) : e.response = (step e.before e.request).1 := by
  induction is generalizing s with
  | nil => cases h
  | cons i is ih =>
    rcases List.mem_cons.mp h with rfl | h
    · rfl
    · exact ih h

theorem law_of_step (Law : List (Exchange S I O) → S → Prop) {s : S} (h₀ : Law [] s)
    {is : List I}
    (hstep : ∀ l s, ∀ i ∈ is, Law l s → Law (l ++ [⟨s, i, (step s i).1⟩]) (step s i).2) :
    Law (history step s is) (after step s is) := by
  suffices hall : ∀ js, (∀ i ∈ js, i ∈ is) → ∀ l s, Law l s →
      Law (l ++ history step s js) (after step s js) from
    hall is (fun _ hi => hi) [] s h₀
  intro js
  induction js with
  | nil =>
    intro _ l s h
    rwa [history, List.append_nil]
  | cons i js ih =>
    intro hjs l s h
    rw [history, List.append_cons]
    exact ih (fun j hj => hjs j (List.mem_cons_of_mem i hj)) _ _
      (hstep l s i (hjs i List.mem_cons_self) h)

end Service
