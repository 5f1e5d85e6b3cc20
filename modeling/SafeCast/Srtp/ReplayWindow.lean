import SafeCast.Library.AntiReplay
import SafeCast.Library.Ledger
import SafeCast.Srtp.Session

/-! # The replay database is a replay window

The database keeps a shifted bit mask. `Remembers` relates it to the list of positions
that passed, and the answers of `check` are those of `AntiReplay.rule`. So a stream that
estimates, checks and records a position for each packet it accepts accepts no position
twice, over any run and whatever keys are loaded in between.
-/

namespace SafeCast

open AntiReplay Runs

namespace Rdbx

variable {w : ℕ} {r : Rdbx w} {passed : List ℕ} {i : ℕ}

def status : Ruling → Except SrtpError Unit
  | .fresh => .ok ()
  | .seen => .error .replayFail
  | .old => .error .replayOld

structure Remembers (r : Rdbx w) (passed : List ℕ) : Prop where
  index : r.index = top passed
  records : r.Records (· ∈ passed)

theorem remembers_init (w : ℕ) : (init w).Remembers [] := by
  refine ⟨rfl, ?_⟩
  intro d hd
  simpa using records_init w d hd

theorem Remembers.bit_iff (h : r.Remembers passed) (hi : i ≤ r.index) (hw : r.index < i + w) :
    r.bitmask.getLsbD ((w : ℤ) - 1 + ((i : ℤ) - r.index)).toNat = true ↔ i ∈ passed := by
  have hbit := h.records (r.index - i) (by omega)
  rw [show ((w : ℤ) - 1 + ((i : ℤ) - r.index)).toNat = w - 1 - (r.index - i) by omega, hbit,
    show r.index - (r.index - i) = i by omega]
  exact and_iff_right (by omega)

theorem Remembers.check_eq (h : r.Remembers passed) (i : ℕ) :
    r.check ((i : ℤ) - r.index) = status (rule w passed i) := by
  rcases Nat.lt_or_ge r.index i with hahead | hback
  · rw [check, if_pos (by omega), rule_of_top_lt (by rwa [← h.index])]
    rfl
  · rw [check, if_neg (by omega), rule, ← h.index]
    by_cases hold : i + w ≤ r.index
    · rw [if_pos (by omega), if_pos hold]
      rfl
    · rw [if_neg (by omega), if_neg hold]
      by_cases hseen : i ∈ passed
      · rw [if_pos ((h.bit_iff hback (by omega)).mpr hseen), if_pos hseen]
        rfl
      · rw [if_neg (fun hbit => hseen ((h.bit_iff hback (by omega)).mp hbit)), if_neg hseen]
        rfl

theorem Remembers.addIndex (h : r.Remembers passed) (hfresh : rule w passed i = .fresh)
    (hi : i < r.index + 2 ^ 16) (hr : r.index < 2 ^ 64 - 2 ^ 16) :
    (r.addIndex ((i : ℤ) - r.index)).Remembers (passed ++ [i]) := by
  have hw : r.index < i + w := by
    rw [h.index]
    exact (rule_eq_fresh.mp hfresh).1
  refine ⟨?_, ?_⟩
  · rw [r.addIndex_index hi hr, top_concat, h.index]
  · have hadd := h.records.addIndex (fun j hj => h.index ▸ le_top hj) hw hi hr
    intro d hd
    rw [hadd d hd]
    simp only [List.mem_append, List.mem_singleton]
    rw [or_comm]

theorem status_eq_ok {v : Ruling} : status v = .ok () ↔ v = .fresh := by
  cases v <;> simp [status]

/-! ## Runs -/

/-- Estimate, check and record one sequence number after the other, as `srtp_protect_aead`
does for each packet, and collect the statuses of the check. -/
def statuses (r : Rdbx w) : List ℕ → List (Except SrtpError Unit)
  | [] => []
  | s :: ss =>
    let guess := r.estimateIndex s
    match r.check guess.2 with
    | .error e => .error e :: r.statuses ss
    | .ok () => .ok () :: (r.addIndex guess.2).statuses ss

theorem Remembers.statuses_eq (h : r.Remembers passed) {seqs : List ℕ}
    (hseqs : ∀ s ∈ seqs, s < 2 ^ 16) (htop : r.index + 2 ^ 16 * seqs.length < 2 ^ 64 - 2 ^ 16) :
    r.statuses seqs =
      (answers w (SerialNumber.unwrap (2 ^ 15)) passed seqs).map status := by
  induction seqs generalizing r passed with
  | nil => rfl
  | cons s ss ih =>
    have hs := hseqs s List.mem_cons_self
    have hss : ∀ s' ∈ ss, s' < 2 ^ 16 := fun s' hs' => hseqs s' (List.mem_cons_of_mem s hs')
    have hposition := r.position_le hs
    rw [List.length_cons] at htop
    have hread : SerialNumber.unwrap (2 ^ 15) (top passed) s = r.position s := by
      rw [position, h.index]
    rw [statuses, answers, estimateIndex_eq _ hs, hread]
    dsimp only
    rw [h.check_eq, List.map_cons]
    cases hrule : rule w passed (r.position s) with
    | fresh =>
      have hindex := r.addIndex_index hposition (by omega)
      rw [if_pos rfl, ← ih (h.addIndex hrule hposition (by omega)) hss (by omega)]
      rfl
    | seen =>
      rw [if_neg (by simp), ← ih h hss (by omega)]
      rfl
    | old =>
      rw [if_neg (by simp), ← ih h hss (by omega)]
      rfl

/-- The database with its bit mask answers as the window that remembers every position:
for each sequence number of a run, the status is the answer about its position. -/
theorem statuses_eq_answers (w : ℕ) {seqs : List ℕ} (hseqs : ∀ s ∈ seqs, s < 2 ^ 16)
    (hlen : seqs.length ≤ 2 ^ 47) :
    (init w).statuses seqs =
      (answers w (SerialNumber.unwrap (2 ^ 15)) [] seqs).map status := by
  refine (remembers_init w).statuses_eq hseqs ?_
  change 0 + 2 ^ 16 * seqs.length < 2 ^ 64 - 2 ^ 16
  omega

/-- A jump ahead, a late packet, its replay and a packet behind the window. -/
theorem statuses_eq_answers_reordered :
    (init 64).statuses [10, 200, 150, 150, 10] = [.ok (), .ok (), .ok (), .error .replayFail,
        .error .replayOld] ∧
      (init 64).statuses [10, 200, 150, 150, 10] =
        (answers 64 (SerialNumber.unwrap (2 ^ 15)) [] [10, 200, 150, 150, 10]).map status :=
  ⟨by decide +kernel, statuses_eq_answers 64 (by decide) (by decide)⟩

inductive Accepts (r : Rdbx w) : Option ℕ → Rdbx w → Prop where
  | kept : Accepts r none r
  | passed {s : ℕ} (hs : s < 2 ^ 16) (hcheck : r.check (r.estimateIndex s).2 = .ok ()) :
      Accepts r (some (r.estimateIndex s).1) (r.addIndex (r.estimateIndex s).2)

structure History (r : Rdbx w) (n : ℕ) (passed : List ℕ) : Prop where
  remembers : r.Remembers passed
  nodup : passed.Nodup
  top_le : top passed ≤ n * (2 ^ 16 - 1)

theorem History.accepts {r' : Rdbx w} {n : ℕ} {o : Option ℕ} (h : r.History n passed)
    (hn : n < 2 ^ 32) (ha : r.Accepts o r') : r'.History (n + 1) (passed ++ o.toList) := by
  obtain ⟨hrem, hnodup, htop⟩ := h
  cases ha with
  | kept =>
    rw [Option.toList_none, List.append_nil]
    exact ⟨hrem, hnodup, htop.trans (Nat.mul_le_mul_right _ n.le_succ)⟩
  | @passed s hs hcheck =>
    have hindex := hrem.index
    have hposition := r.position_le hs
    rw [estimateIndex_eq _ hs] at hcheck ⊢
    have hfresh : rule w passed (r.position s) = .fresh := by
      rwa [hrem.check_eq, status_eq_ok] at hcheck
    -- below `2 ^ 48` the index in the nonce is the whole position
    rw [Nat.mod_eq_of_lt (show r.position s < 2 ^ 48 by omega), Option.toList_some]
    refine ⟨hrem.addIndex hfresh hposition (by omega), nodup_concat hnodup hfresh, ?_⟩
    rw [top_concat]
    omega

variable {S I O P : Type*} {step : S → I → Except P (O × S)}

/-- A component that accepts packets only by way of the database accepts no index twice
in its first `2 ^ 32` calls. -/
theorem history_of_calls (db : S → Rdbx w) (accepted : Transition S I O → Option ℕ)
    (hstep : ∀ s i o s', step s i = .ok (o, s') → (db s).Accepts (accepted ⟨s, i, o, s'⟩) (db s'))
    {s₀ s : S} {is : List I} {os : List O} (h₀ : db s₀ = init w)
    (hrun : run step s₀ is = .ok (os, s)) (hlen : is.length ≤ 2 ^ 32) :
    (db s).History is.length ((calls step s₀ is).filterMap accepted) := by
  have hlaw := run_ledger (fun ts s => ts.length ≤ 2 ^ 32 →
    (db s).History ts.length (ts.filterMap accepted)) ?_ ?_ hrun
  · rw [length_calls hrun] at hlaw
    exact hlaw hlen
  · intro _
    rw [h₀]
    exact ⟨remembers_init w, List.nodup_nil, Nat.zero_le _⟩
  · intro ts s i o s' hts hs hle
    rw [List.length_append, List.length_singleton] at hle ⊢
    have hnext := (hts (by omega)).accepts (by omega) (hstep s i o s' hs)
    cases ha : accepted ⟨s, i, o, s'⟩ <;> simpa [ha] using hnext

end Rdbx

end SafeCast
