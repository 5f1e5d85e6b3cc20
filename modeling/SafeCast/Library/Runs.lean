import Mathlib.Logic.Relation

/-! # Runs of a step function that may abort

A component is a step function from a state and an input to an output and the
next state, where an abort is an error. Runs feed a list of inputs; invariants,
lockstep simulations and the erasure of inputs lift from one step to a run.
-/

namespace Runs

variable {S T I O P : Type*}

def abort? : Except P O → Option P
  | .error p => some p
  | .ok _ => none

theorem abort?_eq_some {x : Except P O} {p : P} : abort? x = some p ↔ x = .error p := by
  cases x <;> simp [abort?]

theorem bind_ok_iff.{u} {α β : Type u} {x : Except P α} {f : α → Except P β} {b : β} :
    x >>= f = .ok b ↔ ∃ a, x = .ok a ∧ f a = .ok b := by
  cases x <;> simp [bind, Except.bind]

/-- The call returned, and the test holds of its output and state. -/
def returns (q : O → S → Bool) : Except P (O × S) → Bool
  | .error _ => false
  | .ok (o, s) => q o s

theorem exists_of_returns {q : O → S → Bool} {x : Except P (O × S)} (h : returns q x = true) :
    ∃ o s, x = .ok (o, s) ∧ q o s = true := by
  rcases x with p | ⟨o, s⟩
  · cases h
  · exact ⟨o, s, rfl, h⟩

/-- Feed the inputs one by one and collect the outputs; an abort ends the run. -/
def run (step : S → I → Except P (O × S)) : S → List I → Except P (List O × S)
  | s, [] => .ok ([], s)
  | s, i :: is =>
    match step s i with
    | .error p => .error p
    | .ok (o, s') =>
      match run step s' is with
      | .error p => .error p
      | .ok (os, s'') => .ok (o :: os, s'')

variable {step : S → I → Except P (O × S)}

theorem run_cons_of_ok {s s' : S} {i : I} {is : List I} {o : O}
    (h : step s i = .ok (o, s')) :
    run step s (i :: is) = (run step s' is).map fun r => (o :: r.1, r.2) := by
  simp only [run, h]
  cases run step s' is <;> rfl

theorem run_cons_of_error {s : S} {i : I} {is : List I} {p : P}
    (h : step s i = .error p) : run step s (i :: is) = .error p := by
  simp only [run, h]

theorem run_singleton {s s' : S} {i : I} {o : O} :
    run step s [i] = .ok ([o], s') ↔ step s i = .ok (o, s') := by
  simp only [run]
  cases step s i <;> simp [Prod.ext_iff]

theorem run_cons_ok_iff {s s'' : S} {i : I} {is : List I} {os : List O} :
    run step s (i :: is) = .ok (os, s'') ↔
      ∃ o s' os', step s i = .ok (o, s') ∧ run step s' is = .ok (os', s'') ∧ os = o :: os' := by
  constructor
  · intro h
    cases hs : step s i with
    | error p => rw [run_cons_of_error hs] at h; cases h
    | ok r =>
      obtain ⟨o, s'⟩ := r
      rw [run_cons_of_ok hs] at h
      cases hr : run step s' is with
      | error p => rw [hr] at h; cases h
      | ok q =>
        obtain ⟨os', t⟩ := q
        rw [hr] at h
        cases h
        exact ⟨o, s', os', rfl, hr, rfl⟩
  · rintro ⟨o, s', os', hs, hr, rfl⟩
    rw [run_cons_of_ok hs, hr]
    rfl

theorem run_append (s : S) (is js : List I) :
    run step s (is ++ js) =
      match run step s is with
      | .error p => .error p
      | .ok (os, s') => (run step s' js).map fun r => (os ++ r.1, r.2) := by
  induction is generalizing s with
  | nil =>
    simp only [List.nil_append, run]
    cases run step s js <;> rfl
  | cons i is ih =>
    rw [List.cons_append]
    cases hs : step s i with
    | error p => rw [run_cons_of_error hs, run_cons_of_error hs]
    | ok r =>
      rw [run_cons_of_ok hs, run_cons_of_ok hs, ih]
      cases run step r.2 is with
      | error p => rfl
      | ok q => simp only [Except.map]; cases run step q.2 js <;> rfl

theorem run_concat_ok_iff {s s'' : S} {i : I} {is : List I} {os : List O} :
    run step s (is ++ [i]) = .ok (os, s'') ↔
      ∃ os' s' o, run step s is = .ok (os', s') ∧ step s' i = .ok (o, s'') ∧ os = os' ++ [o] := by
  rw [run_append]
  constructor
  · intro h
    cases hr : run step s is with
    | error p => rw [hr] at h; cases h
    | ok r =>
      obtain ⟨os', s'⟩ := r
      rw [hr] at h
      cases hs : step s' i with
      | error p => simp only [run_cons_of_error hs] at h; cases h
      | ok q =>
        obtain ⟨o, t⟩ := q
        simp only [run_singleton.mpr hs] at h
        cases h
        exact ⟨os', s', o, rfl, hs, rfl⟩
  · rintro ⟨os', s', o, hr, hs, rfl⟩
    simp only [hr, run_singleton.mpr hs]
    rfl

theorem run_pair {s s'' : S} {i j : I} {os : List O} (h : run step s [i, j] = .ok (os, s'')) :
    ∃ o s' o', step s i = .ok (o, s') ∧ step s' j = .ok (o', s'') ∧ os = [o, o'] := by
  obtain ⟨o, s', os', hi, hrest, rfl⟩ := run_cons_ok_iff.mp h
  obtain ⟨o', _, _, hj, hnil, rfl⟩ := run_cons_ok_iff.mp hrest
  cases hnil
  exact ⟨o, s', o', hi, hj, rfl⟩

/-- The states that calls which return lead to, as long as every state on the way
satisfies `B`. -/
inductive Reaches (step : S → I → Except P (O × S)) (B : S → Prop) (s₀ : S) : S → Prop where
  | start : B s₀ → Reaches step B s₀ s₀
  | next {s s' : S} {i : I} {o : O} : Reaches step B s₀ s → step s i = .ok (o, s') → B s' →
      Reaches step B s₀ s'

theorem Reaches.bound {B : S → Prop} {s₀ s : S} (h : Reaches step B s₀ s) : B s := by
  cases h with
  | start hb => exact hb
  | next _ _ hb => exact hb

theorem Reaches.invariant {B : S → Prop} {s₀ s : S} (h : Reaches step B s₀ s)
    (Inv : S → Prop) (h₀ : Inv s₀)
    (hstep : ∀ s i o s', B s → Inv s → step s i = .ok (o, s') → B s' → Inv s') : Inv s := by
  induction h with
  | start _ => exact h₀
  | next hr hs hb ih => exact hstep _ _ _ _ hr.bound ih hs hb

/-! ## Two runs side by side -/

variable {step' : T → I → Except P (O × T)}

/-- Two results agree: the same abort, or the same output and related states. -/
inductive Agree (R : S → T → Prop) : Except P (O × S) → Except P (O × T) → Prop where
  | error (p : P) : Agree R (.error p) (.error p)
  | ok {s : S} {t : T} (o : O) : R s t → Agree R (.ok (o, s)) (.ok (o, t))

theorem Agree.ok_left {R : S → T → Prop} {o : O} {s : S} {y : Except P (O × T)}
    (h : Agree R (.ok (o, s)) y) : ∃ t, y = .ok (o, t) ∧ R s t := by
  cases h with
  | ok _ hr => exact ⟨_, rfl, hr⟩

theorem Agree.ok_right {R : S → T → Prop} {o : O} {t : T} {x : Except P (O × S)}
    (h : Agree R x (.ok (o, t))) : ∃ s, x = .ok (o, s) ∧ R s t := by
  cases h with
  | ok _ hr => exact ⟨_, rfl, hr⟩

theorem Agree.mono {R R' : S → T → Prop} {x : Except P (O × S)} {y : Except P (O × T)}
    (h : Agree R x y) (hr : ∀ s t, R s t → R' s t) : Agree R' x y := by
  cases h with
  | error p => exact .error p
  | ok o h => exact .ok o (hr _ _ h)

theorem Agree.map {O' : Type*} {R : S → T → Prop} {x : Except P (O × S)} {y : Except P (O × T)}
    (h : Agree R x y) (f : O → O') :
    Agree R (x.map fun r => (f r.1, r.2)) (y.map fun r => (f r.1, r.2)) := by
  cases h with
  | error p => exact .error p
  | ok o h => exact .ok (f o) h

/-- Lockstep: related states give agreeing results on every input, so agreeing runs. -/
theorem run_agree {R : S → T → Prop}
    (hstep : ∀ s t i, R s t → Agree R (step s i) (step' t i)) (is : List I) :
    ∀ s t, R s t → Agree R (run step s is) (run step' t is) := by
  induction is with
  | nil => intro s t h; exact .ok [] h
  | cons i is ih =>
    intro s t h
    have hi := hstep s t i h
    generalize hx : step s i = x at hi
    generalize hy : step' t i = y at hi
    cases hi with
    | error p =>
      rw [run_cons_of_error hx, run_cons_of_error hy]
      exact .error p
    | ok o hr =>
      rw [run_cons_of_ok hx, run_cons_of_ok hy]
      have hrun := ih _ _ hr
      generalize run step _ is = u at hrun
      generalize run step' _ is = v at hrun
      cases hrun with
      | error p => exact .error p
      | ok os hr' => exact .ok (o :: os) hr'

/-- The inputs whose output satisfies `keep`, along a run. -/
def kept (step : S → I → Except P (O × S)) (keep : O → Bool) : S → List I → List I
  | _, [] => []
  | s, i :: is =>
    match step s i with
    | .error _ => []
    | .ok (o, s') => if keep o then i :: kept step keep s' is else kept step keep s' is

/-- Erasure: when an input whose output is not kept leads back to a related state,
dropping all such inputs keeps the other outputs and ends in a related state. -/
theorem run_erase (keep : O → Bool) {R : S → S → Prop}
    (hstep : ∀ s t i, R s t → Agree R (step s i) (step t i))
    (hdrop : ∀ s t i o s', R s t → step s i = .ok (o, s') → keep o = false → R s' t)
    (is : List I) :
    ∀ s t os s', R s t → run step s is = .ok (os, s') →
      ∃ t', run step t (kept step keep s is) = .ok (os.filter keep, t') ∧ R s' t' := by
  induction is with
  | nil =>
    intro s t os s' hr h
    cases h
    exact ⟨t, rfl, hr⟩
  | cons i is ih =>
    intro s t os s' hr h
    obtain ⟨o, s₁, os', hs, hrun, rfl⟩ := run_cons_ok_iff.mp h
    cases hk : keep o with
    | false =>
      obtain ⟨t', ht, hr'⟩ := ih s₁ t os' s' (hdrop s t i o s₁ hr hs hk) hrun
      refine ⟨t', ?_, hr'⟩
      simpa [kept, hs, hk] using ht
    | true =>
      have ha := hstep s t i hr
      rw [hs] at ha
      obtain ⟨t₁, ht₁, hr₁⟩ := ha.ok_left
      obtain ⟨t', ht, hr'⟩ := ih s₁ t₁ os' s' hr₁ hrun
      refine ⟨t', ?_, hr'⟩
      simp only [kept, hs, hk, if_true, List.filter_cons_of_pos]
      exact run_cons_ok_iff.mpr ⟨o, t₁, _, ht₁, ht, rfl⟩

end Runs
