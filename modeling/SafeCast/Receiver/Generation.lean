import SafeCast.Keying.Granularity
import SafeCast.Receiver.IndexRecovery

/-! # From a packet's header to its generation

The receiver computes a packet's generation from the header alone: from the
timestamp at frame level, from the recovered sequence index at packet level.
-/

namespace SafeCast

inductive GenerationScheme where
  | epochOnly
  | frame (epochStartTs framePeriod : ℕ)
  | packet (base : ℕ)
  | everyN (base n : ℕ)
  deriving DecidableEq, Repr

inductive RecvDrop where
  | behindWindow
  | seekCapExceeded
  | srtpReplay
  | authFail
  deriving DecidableEq, Repr

/-- The frame a timestamp belongs to; the subtraction wraps at 32 bits. -/
def frameGeneration (ts epochStartTs framePeriod : ℕ) : Except Panic ℕ :=
  if framePeriod = 0 then .error .divisionByZero
  else .ok ((ts + (2 ^ 32 - epochStartTs)) % 2 ^ 32 / framePeriod)

namespace GenerationScheme

/-- The receiver's scheme for a sender's granularity. -/
def forGranularity (granularity : Granularity) (epochStartTs framePeriod base : ℕ) :
    GenerationScheme :=
  match granularity with
  | .epochOnly => .epochOnly
  | .frame => .frame epochStartTs framePeriod
  | .packet => .packet base
  | .everyN n => .everyN base n

/-- The generation of a packet, and its extended index where the scheme recovers one. -/
def mapGeneration (scheme : GenerationScheme) (recovery : IndexRecovery) (packet : Bytes) :
    Except Panic (Except RecvDrop (ℕ × Option ℕ)) :=
  match scheme with
  | .epochOnly => .ok (.ok (0, none))
  | .frame epochStartTs framePeriod =>
    match frameGeneration (timestampOf packet) epochStartTs framePeriod with
    | .error p => .error p
    | .ok g => .ok (.ok (g, none))
  | .packet base =>
    let index := recovery.recover (seqOf packet)
    if index < base then .ok (.error .behindWindow) else .ok (.ok (index - base, some index))
  | .everyN base n =>
    let index := recovery.recover (seqOf packet)
    if index < base then .ok (.error .behindWindow)
    else if n = 0 then .error .divisionByZero
    else .ok (.ok ((index - base) / n, some index))

def Valid : GenerationScheme → Prop
  | .frame _ framePeriod => 1 ≤ framePeriod
  | .everyN _ n => 1 ≤ n
  | _ => True

def Indexed : GenerationScheme → Prop
  | .packet _ | .everyN _ _ => True
  | _ => False

section Mapped

variable {recovery : IndexRecovery} {packet : Bytes} {base n g : ℕ} {estIndex : Option ℕ}

theorem mapGeneration_everyN_iff (hn : 1 ≤ n) :
    (GenerationScheme.everyN base n).mapGeneration recovery packet = .ok (.ok (g, estIndex)) ↔
      base ≤ recovery.recover (seqOf packet) ∧ g = (recovery.recover (seqOf packet) - base) / n ∧
        estIndex = some (recovery.recover (seqOf packet)) := by
  unfold mapGeneration
  dsimp only
  split
  · rename_i h
    constructor
    · rintro ⟨⟩
    · rintro ⟨h', -⟩
      exact absurd h (not_lt.mpr h')
  · rename_i h
    rw [if_neg (by omega)]
    constructor
    · rintro ⟨⟩
      exact ⟨not_lt.mp h, rfl, rfl⟩
    · rintro ⟨-, rfl, rfl⟩
      rfl

theorem mapGeneration_packet (base : ℕ) (recovery : IndexRecovery) (packet : Bytes) :
    (GenerationScheme.packet base).mapGeneration recovery packet =
      (GenerationScheme.everyN base 1).mapGeneration recovery packet := by
  simp [mapGeneration]

theorem mapGeneration_packet_iff :
    (GenerationScheme.packet base).mapGeneration recovery packet = .ok (.ok (g, estIndex)) ↔
      base ≤ recovery.recover (seqOf packet) ∧ g = recovery.recover (seqOf packet) - base ∧
        estIndex = some (recovery.recover (seqOf packet)) := by
  rw [mapGeneration_packet, mapGeneration_everyN_iff le_rfl, Nat.div_one]

theorem mapGeneration_indexed {scheme : GenerationScheme} (hscheme : scheme.Indexed)
    (h : scheme.mapGeneration recovery packet = .ok (.ok (g, estIndex))) :
    estIndex = some (recovery.recover (seqOf packet)) := by
  cases scheme with
  | epochOnly => exact hscheme.elim
  | frame epochStartTs framePeriod => exact hscheme.elim
  | packet base => exact (mapGeneration_packet_iff.mp h).2.2
  | everyN base n =>
    rcases n.eq_zero_or_pos with rfl | hn
    · unfold mapGeneration at h
      dsimp only at h
      split at h <;> cases h
    · exact ((mapGeneration_everyN_iff hn).mp h).2.2

end Mapped

theorem mapGeneration_error {scheme : GenerationScheme} {recovery : IndexRecovery}
    {packet : Bytes} {p : Panic} (h : scheme.mapGeneration recovery packet = .error p) :
    p = .divisionByZero ∧ ¬ scheme.Valid := by
  unfold mapGeneration at h
  cases scheme with
  | epochOnly => cases h
  | frame epochStartTs framePeriod =>
    unfold frameGeneration at h
    by_cases hp : framePeriod = 0
    · simp only [hp, if_true] at h
      cases h
      exact ⟨rfl, by simp [Valid, hp]⟩
    · simp only [hp, if_false] at h
      cases h
  | packet base =>
    dsimp only at h
    split at h <;> cases h
  | everyN base n =>
    dsimp only at h
    split at h
    · cases h
    split at h
    · rename_i hn
      cases h
      exact ⟨rfl, by simp [Valid, hn]⟩
    · cases h

end GenerationScheme

end SafeCast
