import SafeCast.Library.SerialNumber
import SafeCast.Primitives

/-! # The replay database of libsrtp

The database keeps the highest packet index and one bit for each of the last `w`
indices, the newest in the top bit. `estimateIndex` is the nearest candidate of
`SerialNumber.unwrap`, cut to 48 bits.
-/

namespace SafeCast

open SerialNumber

/-- `srtp_rdbx_t` with a window of `w` bits. -/
structure Rdbx (w : ℕ) where
  index : ℕ
  bitmask : BitVec w
  deriving DecidableEq

def seqNumMedian : ℕ := 2 ^ 15

def seqNumMax : ℕ := 2 ^ 16

namespace Rdbx

variable {w : ℕ}

def init (w : ℕ) : Rdbx w := ⟨0, 0⟩

/-- `srtp_index_guess`: the guessed index and its distance from the local one. The
rollover counters are 32 bits wide, the difference is a signed integer. -/
def indexGuess (loc s : ℕ) : ℕ × ℤ :=
  let localRoc := loc / 2 ^ 16 % 2 ^ 32
  let localSeq : ℤ := (loc % 2 ^ 16 : ℕ)
  if localSeq < seqNumMedian then
    if s - localSeq > seqNumMedian then
      ((localRoc + (2 ^ 32 - 1)) % 2 ^ 32 * 2 ^ 16 + s, s - localSeq - seqNumMax)
    else (localRoc * 2 ^ 16 + s, s - localSeq)
  else if localSeq - seqNumMedian > s then
    ((localRoc + 1) % 2 ^ 32 * 2 ^ 16 + s, s - localSeq + seqNumMax)
  else (localRoc * 2 ^ 16 + s, s - localSeq)

/-- `srtp_rdbx_estimate_index`: the estimated index of a sequence number and its
distance from the highest one. -/
def estimateIndex (r : Rdbx w) (s : ℕ) : ℕ × ℤ :=
  if r.index > seqNumMedian then indexGuess r.index s
  else (s, s - (r.index % 2 ^ 16 : ℕ))

/-- `srtp_rdbx_check` of the index at distance `δ`. -/
def check (r : Rdbx w) (δ : ℤ) : Except SrtpError Unit :=
  if δ > 0 then .ok ()
  else if (w : ℤ) - 1 + δ < 0 then .error .replayOld
  else if r.bitmask.getLsbD ((w : ℤ) - 1 + δ).toNat then .error .replayFail
  else .ok ()

/-- `srtp_rdbx_add_index` at distance `δ`; the advance is a 16-bit number. -/
def addIndex (r : Rdbx w) (δ : ℤ) : Rdbx w :=
  if δ > 0 then
    ⟨(r.index + δ.toNat % 2 ^ 16) % 2 ^ 64, r.bitmask >>> δ.toNat ||| BitVec.twoPow w (w - 1)⟩
  else ⟨r.index, r.bitmask ||| BitVec.twoPow w ((w : ℤ) - 1 + δ).toNat⟩

def position (r : Rdbx w) (s : ℕ) : ℕ := unwrap (2 ^ 15) r.index s

theorem indexGuess_eq {loc s : ℕ} (hs : s < 2 ^ 16) (hl : 2 ^ 15 < loc) :
    indexGuess loc s = (unwrap (2 ^ 15) loc s % 2 ^ 48, (unwrap (2 ^ 15) loc s : ℤ) - loc) := by
  have hle := abs_le.mp (abs_delta_le (m := 2 ^ 15) (h := loc) (s := s) (by omega))
  have hu : (unwrap (2 ^ 15) loc s : ℤ) = loc + delta (2 ^ 15) loc s := by
    rw [unwrap, if_pos (by omega)]
    omega
  generalize unwrap (2 ^ 15) loc s = u at hu ⊢
  clear hle
  unfold delta at hu
  unfold indexGuess seqNumMedian seqNumMax
  dsimp only
  split <;> split <;> (split at hu <;> split at hu) <;>
    rw [Prod.mk.injEq] <;> constructor <;> omega

theorem estimateIndex_eq (r : Rdbx w) {s : ℕ} (hs : s < 2 ^ 16) :
    r.estimateIndex s = (r.position s % 2 ^ 48, (r.position s : ℤ) - r.index) := by
  unfold estimateIndex seqNumMedian
  split_ifs with h
  · exact indexGuess_eq hs h
  · have hp : r.position s = s := by
      unfold position unwrap delta
      split_ifs <;> omega
    rw [hp, Nat.mod_eq_of_lt (by omega), Nat.mod_eq_of_lt (by omega)]

theorem position_le (r : Rdbx w) {s : ℕ} (hs : s < 2 ^ 16) :
    r.position s < r.index + 2 ^ 16 := by
  unfold position unwrap delta
  split_ifs <;> omega

theorem position_of_near (r : Rdbx w) {i : ℕ} (h : |(i : ℤ) - r.index| < 2 ^ 15) :
    r.position (i % 2 ^ 16) = i :=
  unwrap_of_near (m := 2 ^ 15) (by decide) h

theorem position_init (w : ℕ) {i : ℕ} (hi : i < 2 ^ 16) : (init w).position (i % 2 ^ 16) = i := by
  rw [Nat.mod_eq_of_lt hi]
  exact unwrap_zero (m := 2 ^ 15) hi

theorem addIndex_index (r : Rdbx w) {i : ℕ} (hi : i < r.index + 2 ^ 16)
    (hr : r.index < 2 ^ 64 - 2 ^ 16) : (r.addIndex ((i : ℤ) - r.index)).index = max r.index i := by
  unfold addIndex
  split_ifs with h
  · rw [max_eq_right (by omega)]
    change (r.index + _) % 2 ^ 64 = _
    omega
  · exact (max_eq_left (show i ≤ r.index by omega)).symm

theorem check_error {r : Rdbx w} {δ : ℤ} {e : SrtpError} (h : r.check δ = .error e) :
    e = .replayOld ∨ e = .replayFail := by
  unfold check at h
  split at h
  · cases h
  split at h
  · cases h
    exact .inl rfl
  split at h
  · cases h
    exact .inr rfl
  · cases h

/-! ## What the window remembers -/

theorem index_add_estimate (r : Rdbx w) {s : ℕ} (hs : s < 2 ^ 16) :
    (r.index + (r.estimateIndex s).2) % 2 ^ 16 = s := by
  unfold estimateIndex indexGuess seqNumMedian seqNumMax
  dsimp only
  split_ifs <;> dsimp only <;> omega

theorem estimateIndex_of_mod (r : Rdbx w) {s : ℕ} (h : r.index % 2 ^ 16 = s) :
    (r.estimateIndex s).2 = 0 := by
  unfold estimateIndex indexGuess seqNumMedian seqNumMax
  dsimp only
  split_ifs <;> dsimp only <;> omega

theorem check_addIndex (r : Rdbx w) (hw : 0 < w) {s : ℕ} (hs : s < 2 ^ 16)
    (h : r.check (r.estimateIndex s).2 = .ok ()) :
    (r.addIndex (r.estimateIndex s).2).check
      ((r.addIndex (r.estimateIndex s).2).estimateIndex s).2 = .error .replayFail := by
  have hmod := r.index_add_estimate hs
  by_cases hpos : (r.estimateIndex s).2 > 0
  · have hzero : ((r.addIndex (r.estimateIndex s).2).estimateIndex s).2 = 0 := by
      apply estimateIndex_of_mod
      simp only [addIndex, if_pos hpos]
      omega
    rw [hzero]
    simp only [addIndex, if_pos hpos, check]
    rw [if_neg (by omega), if_neg (by omega), if_pos]
    simp [hw]
  · have hsame : (r.addIndex (r.estimateIndex s).2).estimateIndex s = r.estimateIndex s := by
      rw [addIndex, if_neg hpos]
      rfl
    rw [hsame]
    unfold check at h
    rw [if_neg hpos] at h
    split_ifs at h with hold hseen
    simp only [addIndex, if_neg hpos, check]
    rw [if_neg hold, if_pos]
    simp [show ((w : ℤ) - 1 + (r.estimateIndex s).2).toNat < w by omega]

/-- The set bits of the window are the recorded indices. -/
def Records (r : Rdbx w) (seen : ℕ → Prop) : Prop :=
  ∀ d < w, r.bitmask.getLsbD (w - 1 - d) = true ↔ d ≤ r.index ∧ seen (r.index - d)

theorem records_init (w : ℕ) : (init w).Records fun _ => False := by
  intro d _
  simp [init]

variable {r : Rdbx w} {seen : ℕ → Prop} {i : ℕ}

theorem Records.check_ok (h : r.Records seen) (hw : r.index < i + w) (hi : ¬ seen i) :
    r.check ((i : ℤ) - r.index) = .ok () := by
  unfold check
  split_ifs with hahead hold hbit
  · rfl
  · omega
  · exfalso
    have hd := (h (r.index - i) (by omega)).mp (by
      rwa [show w - 1 - (r.index - i) = ((w : ℤ) - 1 + ((i : ℤ) - r.index)).toNat by omega])
    rw [show r.index - (r.index - i) = i by omega] at hd
    exact hi hd.2
  · rfl

theorem Records.addIndex (h : r.Records seen) (hle : ∀ j, seen j → j ≤ r.index)
    (hw : r.index < i + w) (hi : i < r.index + 2 ^ 16) (hr : r.index < 2 ^ 64 - 2 ^ 16) :
    (r.addIndex ((i : ℤ) - r.index)).Records fun j => j = i ∨ seen j := by
  intro d hd
  rw [r.addIndex_index hi hr]
  unfold Rdbx.addIndex
  split_ifs with hahead
  · -- the window moves up by `i - r.index`
    have hmax : max r.index i = i := by omega
    rw [hmax]
    simp only [BitVec.getLsbD_or, BitVec.getLsbD_ushiftRight, BitVec.getLsbD_twoPow,
      Bool.or_eq_true, Bool.and_eq_true, decide_eq_true_eq]
    have htop : (w - 1 < w ∧ w - 1 = w - 1 - d) ↔ d = 0 := by omega
    rw [htop]
    by_cases hold : i - r.index ≤ d
    · rw [show ((i : ℤ) - r.index).toNat + (w - 1 - d) = w - 1 - (d - (i - r.index)) by omega,
        h _ (by omega), show r.index - (d - (i - r.index)) = i - d by omega]
      constructor
      · rintro (⟨hj, hs⟩ | rfl)
        · exact ⟨by omega, .inr hs⟩
        · exact ⟨Nat.zero_le _, .inl rfl⟩
      · rintro ⟨hj, hij | hs⟩
        · exact .inr (by omega)
        · exact .inl ⟨by omega, hs⟩
    · -- above the old top: only the new index is known there
      rw [BitVec.getLsbD_of_ge _ _ (by omega)]
      constructor
      · rintro (h | rfl)
        · cases h
        · exact ⟨Nat.zero_le _, .inl rfl⟩
      · rintro ⟨hj, hij | hs⟩
        · exact .inr (by omega)
        · have := hle _ hs
          omega
  · have hmax : max r.index i = r.index := by omega
    rw [hmax]
    simp only [BitVec.getLsbD_or, BitVec.getLsbD_twoPow, Bool.or_eq_true, Bool.and_eq_true,
      decide_eq_true_eq, h d hd]
    have hbit : (((w : ℤ) - 1 + ((i : ℤ) - r.index)).toNat < w ∧
        ((w : ℤ) - 1 + ((i : ℤ) - r.index)).toNat = w - 1 - d) ↔
          d ≤ r.index ∧ r.index - d = i := by omega
    rw [hbit, ← and_or_left, or_comm]

end Rdbx

end SafeCast
