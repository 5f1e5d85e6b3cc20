import Mathlib.Data.List.Infix
import SafeCast.Library.Runs

/-! # Ledgers of runs

The calls of a run, one record each with the states around it. A law between the calls so
far and the state, kept by every call, holds after every run; a run returns when each call
returns from the state that the calls before it lead to.
-/

namespace Runs

variable {S I O P : Type*} {step : S → I → Except P (O × S)}

structure Transition (S I O : Type*) where
  before : S
  input : I
  output : O
  after : S

/-- The calls of a run, up to the first abort. -/
def calls (step : S → I → Except P (O × S)) : S → List I → List (Transition S I O)
  | _, [] => []
  | s, i :: is =>
    match step s i with
    | .error _ => []
    | .ok (o, s') => ⟨s, i, o, s'⟩ :: calls step s' is

theorem calls_cons_of_ok {s s' : S} {i : I} {is : List I} {o : O} (h : step s i = .ok (o, s')) :
    calls step s (i :: is) = ⟨s, i, o, s'⟩ :: calls step s' is := by
  simp only [calls, h]

/-- A law that holds before the first call and is kept by every call holds after a run. -/
theorem run_ledger {s s' : S} {is : List I} {os : List O}
    (Law : List (Transition S I O) → S → Prop) (h₀ : Law [] s)
    (hstep : ∀ ts s i o s', Law ts s → step s i = .ok (o, s') → Law (ts ++ [⟨s, i, o, s'⟩]) s')
    (h : run step s is = .ok (os, s')) : Law (calls step s is) s' := by
  suffices hall : ∀ is ts s os, Law ts s → run step s is = .ok (os, s') →
      Law (ts ++ calls step s is) s' from hall is [] s os h₀ h
  clear h h₀
  intro is
  induction is with
  | nil =>
    intro ts s os hlaw h
    cases h
    rwa [calls, List.append_nil]
  | cons i is ih =>
    intro ts s os hlaw h
    obtain ⟨o, s₁, os', hs, hrun, rfl⟩ := run_cons_ok_iff.mp h
    rw [calls_cons_of_ok hs, List.append_cons]
    exact ih _ s₁ os' (hstep ts s i o s₁ hlaw hs) hrun

theorem run_invariant {s s' : S} {is : List I} {os : List O} (P : S → Prop) (h₀ : P s)
    (hstep : ∀ s i o s', P s → step s i = .ok (o, s') → P s')
    (h : run step s is = .ok (os, s')) : P s' :=
  run_ledger (fun _ => P) h₀ (fun _ => hstep) h

theorem map_input_calls {s s' : S} {is : List I} {os : List O}
    (h : run step s is = .ok (os, s')) : (calls step s is).map Transition.input = is := by
  induction is generalizing s os with
  | nil => rfl
  | cons i is ih =>
    obtain ⟨o, s₁, os', hs, hrun, rfl⟩ := run_cons_ok_iff.mp h
    rw [calls_cons_of_ok hs, List.map_cons, ih hrun]

theorem map_output_calls {s s' : S} {is : List I} {os : List O}
    (h : run step s is = .ok (os, s')) : (calls step s is).map Transition.output = os := by
  induction is generalizing s os with
  | nil =>
    cases h
    rfl
  | cons i is ih =>
    obtain ⟨o, s₁, os', hs, hrun, rfl⟩ := run_cons_ok_iff.mp h
    rw [calls_cons_of_ok hs, List.map_cons, ih hrun]

theorem length_calls {s s' : S} {is : List I} {os : List O} (h : run step s is = .ok (os, s')) :
    (calls step s is).length = is.length := by
  rw [← map_input_calls h, List.length_map, map_input_calls h]

theorem step_of_mem_calls {s : S} {is : List I} {t : Transition S I O} (h : t ∈ calls step s is) :
    step t.before t.input = .ok (t.output, t.after) := by
  induction is generalizing s with
  | nil => cases h
  | cons i is ih =>
    cases hs : step s i with
    | error p =>
      simp only [calls, hs] at h
      cases h
    | ok r =>
      rw [calls_cons_of_ok hs] at h
      rcases List.mem_cons.mp h with rfl | h
      · exact hs
      · exact ih h

theorem exists_run_prefix {s s' : S} {is pre : List I} {os : List O}
    (h : run step s is = .ok (os, s')) (hpre : pre <+: is) :
    ∃ os' s'', run step s pre = .ok (os', s'') := by
  induction pre generalizing s is os with
  | nil => exact ⟨[], s, rfl⟩
  | cons i pre ih =>
    obtain ⟨rest, rfl⟩ := hpre
    obtain ⟨o, s₁, os₁, hs, hrun, -⟩ := run_cons_ok_iff.mp h
    obtain ⟨os', s'', hrun'⟩ := ih hrun (List.prefix_append pre rest)
    exact ⟨o :: os', s'', run_cons_ok_iff.mpr ⟨o, s₁, os', hs, hrun', rfl⟩⟩

theorem exists_run_iff {s : S} {is : List I} :
    (∃ os s', run step s is = .ok (os, s')) ↔
      ∀ pre i, pre ++ [i] <+: is → ∀ os s', run step s pre = .ok (os, s') →
        ∃ o s'', step s' i = .ok (o, s'') := by
  induction is generalizing s with
  | nil =>
    constructor
    · intro _ pre i hpre
      simp at hpre
    · intro _
      exact ⟨[], s, rfl⟩
  | cons i is ih =>
    constructor
    · rintro ⟨os, s', h⟩ pre j hpre os' t hrun
      obtain ⟨o, s₁, os₁, hs, hrest, -⟩ := run_cons_ok_iff.mp h
      cases pre with
      | nil =>
        cases hrun
        obtain rfl : j = i := by simpa using hpre
        exact ⟨o, s₁, hs⟩
      | cons k pre =>
        obtain ⟨rfl, htail⟩ : k = i ∧ pre ++ [j] <+: is := by simpa using hpre
        obtain ⟨o', s₂, os₂, hs', hrun, -⟩ := run_cons_ok_iff.mp hrun
        obtain ⟨-, rfl⟩ := Prod.mk.inj (Except.ok.inj (hs.symm.trans hs'))
        exact ih.mp ⟨os₁, s', hrest⟩ pre j htail os₂ t hrun
    · intro h
      obtain ⟨o, s₁, hs⟩ := h [] i (by simp) [] s rfl
      obtain ⟨os, s', hrun⟩ := ih.mpr fun pre j hpre os t hrun =>
        h (i :: pre) j (by simpa using hpre) (o :: os) t
          (run_cons_ok_iff.mpr ⟨o, s₁, os, hs, hrun, rfl⟩)
      exact ⟨o :: os, s', run_cons_ok_iff.mpr ⟨o, s₁, os, hs, hrun, rfl⟩⟩

end Runs
