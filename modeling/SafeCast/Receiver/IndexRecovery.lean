import SafeCast.Library.RunningMax
import SafeCast.Library.SerialNumber
import SafeCast.Primitives

/-! # Recovering the extended sequence index

`recover` places a 16-bit sequence number next to the highest index among the
authenticated packets. It computes the nearest candidate of `SerialNumber.unwrap`.
-/

namespace SafeCast

open SerialNumber

/-- The highest extended index among the authenticated packets. -/
structure IndexRecovery where
  highest : Option ℕ := none
  deriving DecidableEq

namespace IndexRecovery

def recover (r : IndexRecovery) (seq : ℕ) : ℕ :=
  match r.highest with
  | none => seq
  | some highest =>
    let roc := highest / 2 ^ 16
    let sl : ℤ := (highest % 2 ^ 16 : ℕ)
    let v :=
      if sl < 32768 then
        -- the rollover count saturates at zero
        if seq - sl > 32768 then roc - 1 else roc
      else if sl - 32768 > seq then roc + 1
      else roc
    -- `(v << 16) | seq`, where the shift drops the bits above 64
    v * 2 ^ 16 % 2 ^ 64 + seq

def update (r : IndexRecovery) (index : ℕ) : IndexRecovery :=
  match r.highest with
  | none => ⟨some index⟩
  | some h => if index > h then ⟨some index⟩ else r

/-- Recover each sequence number of a stream, and record its index before the next one. -/
def recoverAll (r : IndexRecovery) : List ℕ → List ℕ
  | [] => []
  | seq :: seqs =>
    let index := r.recover seq
    index :: (r.update index).recoverAll seqs

/-- The reference position: the highest index, zero before the first packet. -/
def reference (r : IndexRecovery) : ℕ := r.highest.getD 0

theorem recover_eq_unwrap (r : IndexRecovery) {seq : ℕ} (hseq : seq < 2 ^ 16)
    (hr : r.reference < 2 ^ 64 - 2 ^ 16) :
    r.recover seq = unwrap (2 ^ 15) r.reference seq := by
  obtain ⟨highest⟩ := r
  cases highest with
  | none => exact (unwrap_zero (m := 2 ^ 15) hseq).symm
  | some h =>
    simp only [reference, Option.getD_some] at hr ⊢
    simp only [recover, unwrap, delta]
    split_ifs <;> omega

theorem reference_update (r : IndexRecovery) (index : ℕ) :
    (r.update index).reference = max r.reference index := by
  obtain ⟨highest⟩ := r
  cases highest with
  | none => simp [update, reference]
  | some h =>
    simp only [update, reference, Option.getD_some]
    split_ifs with hi
    · exact (max_eq_right hi.le).symm
    · exact (max_eq_left (not_lt.mp hi)).symm

/-! ## Whole streams -/

theorem recover_some_of_near {h t : ℕ} (hh : h < 2 ^ 63) (hnear : |(t : ℤ) - h| < 2 ^ 15) :
    (mk (some h)).recover (t % 2 ^ 16) = t := by
  rw [recover_eq_unwrap _ (Nat.mod_lt _ (by decide)) (show h < _ by omega)]
  exact unwrap_of_near (m := 2 ^ 15) (by decide) hnear

theorem highest_update (r : IndexRecovery) (index : ℕ) :
    (r.update index).highest = some (r.highest.elim index (max · index)) := by
  obtain ⟨highest⟩ := r
  cases highest with
  | none => rfl
  | some h =>
    simp only [update, Option.elim_some]
    split_ifs with hi
    · rw [max_eq_right hi.le]
    · rw [max_eq_left (not_lt.mp hi)]

/-- The position is less than half a cycle from the highest one before it; the first one is in
the first cycle. -/
def Near (highest : Option ℕ) (p : ℕ) : Prop :=
  highest.elim (p < 65536) fun h => |(p : ℤ) - h| < 32768

theorem recover_of_near {highest : Option ℕ} {p : ℕ} (hh : ∀ h ∈ highest, h < 2 ^ 63)
    (hnear : Near highest p) : (mk highest).recover (p % 2 ^ 16) = p := by
  cases highest with
  | none => exact Nat.mod_eq_of_lt hnear
  | some h => exact recover_some_of_near (hh h rfl) hnear

theorem recoverAll_of_near {pre positions : List ℕ} (hlt : ∀ p ∈ pre ++ positions, p < 2 ^ 63)
    (hnear : ∀ pre' p, pre' ++ [p] <+: pre ++ positions → Near pre'.max? p) :
    (mk pre.max?).recoverAll (positions.map (· % 2 ^ 16)) = positions := by
  induction positions generalizing pre with
  | nil => rfl
  | cons p positions ih =>
    have hp : (mk pre.max?).recover (p % 2 ^ 16) = p := by
      refine recover_of_near ?_ (hnear pre p (by simp))
      intro h hh
      exact hlt h (List.mem_append_left _ (List.max?_mem hh))
    have hnext : (mk pre.max?).update p = mk (pre ++ [p]).max? := by
      rw [RunningMax.max?_concat, ← highest_update (mk pre.max?) p]
    rw [List.map_cons, recoverAll, hp, hnext, ih]
    · rwa [List.append_assoc]
    · rwa [List.append_assoc]

/-- The recovered index is the nearest candidate, and whole streams of packets that arrive near
the newest one are read without an error. -/
theorem recover_nearest :
    (∀ h t : ℕ, h < 2 ^ 63 → t < 2 ^ 63 → |(t : ℤ) - h| < 32768 →
        (mk (some h)).recover (t % 2 ^ 16) = t) ∧
      (∀ h seq : ℕ, h < 2 ^ 63 → seq < 2 ^ 16 →
        (mk (some h)).recover seq % 2 ^ 16 = seq ∧
          ((∃ x : ℤ, x < 0 ∧ 2 ^ 16 ∣ x - seq ∧ |x - h| < 32768) →
            (mk (some h)).recover seq = seq) ∧
          ((¬ ∃ x : ℤ, x < 0 ∧ 2 ^ 16 ∣ x - seq ∧ |x - h| < 32768) →
            |((mk (some h)).recover seq : ℤ) - h| ≤ 32768)) ∧
      ∀ positions : List ℕ, (∀ p ∈ positions, p < 2 ^ 63) →
        (∀ pre p, pre ++ [p] <+: positions → Near pre.max? p) →
          ({} : IndexRecovery).recoverAll (positions.map (· % 2 ^ 16)) = positions := by
  refine ⟨fun h t hh _ hnear => recover_some_of_near hh hnear, ?_, ?_⟩
  · intro h seq hh hseq
    rw [recover_eq_unwrap _ hseq (show h < _ by omega)]
    refine ⟨unwrap_mod (m := 2 ^ 15) hseq, ?_, ?_⟩
    · rintro ⟨x, hneg, hdvd, hnear⟩
      apply unwrap_of_neg
      rw [delta_of_candidate (m := 2 ^ 15) hseq hdvd hnear]
      change (h : ℤ) + (x - h) < 0
      omega
    · intro hneg
      refine abs_unwrap_sub_le (m := 2 ^ 15) hseq ?_
      intro x hx hdvd hnear
      exact hneg ⟨x, hx, hdvd, hnear⟩
  · intro positions hlt hnear
    have hnil : ([] : List ℕ) ++ positions = positions := List.nil_append positions
    rw [← hnil] at hlt hnear
    exact recoverAll_of_near hlt hnear

/-- Three packets around the first wrap, the last one late. -/
theorem recover_across_wrap :
    ({} : IndexRecovery).recoverAll [65530, 3, 65534] = [65530, 65539, 65534] := by
  refine recover_nearest.2.2 [65530, 65539, 65534] (by simp) ?_
  intro pre p hpre
  rcases pre with - | ⟨a, - | ⟨b, - | ⟨c, pre⟩⟩⟩
  · obtain rfl : p = 65530 := by simpa using hpre
    simp [Near]
  · obtain ⟨rfl, rfl⟩ : a = 65530 ∧ p = 65539 := by simpa using hpre
    simp [Near]
  · obtain ⟨rfl, rfl, rfl⟩ : a = 65530 ∧ b = 65539 ∧ p = 65534 := by simpa using hpre
    simp [Near]
  · simp at hpre

end IndexRecovery

end SafeCast
