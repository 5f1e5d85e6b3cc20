import Mathlib.Data.Nat.Basic
import SafeCast.Primitives

/-! # The TESLA disclosure schedule

Time is cut into intervals, numbered from 1. The key of interval `i` is disclosed by the
packets of interval `i + d`. The accept test reads the receiver's clock pessimistically,
with the bound `dTNs` on how far the sender's clock can be ahead.
-/

namespace SafeCast

inductive IntervalCheck where
  | safe
  | unsafeLate
  deriving DecidableEq, Repr

/-- The schedule of a stream, with what its constructor asserts. -/
structure TeslaSchedule where
  t0Ns : ℕ
  tIntNs : ℕ
  d : ℕ
  nChain : ℕ
  dTNs : ℕ
  gMax : ℕ
  tIntNs_pos : 0 < tIntNs
  two_le_d : 2 ≤ d
  nChain_pos : 1 ≤ nChain
  gMax_pos : 1 ≤ gMax
  nChain_lt : nChain < 2 ^ 32

namespace TeslaSchedule

def new (t0Ns tIntNs : UInt64) (d nChain : UInt32) (dTNs : UInt64) (gMax : UInt32) :
    Except Panic TeslaSchedule :=
  if h₁ : 0 < tIntNs.toNat then
    if h₂ : 2 ≤ d.toNat then
      if h₃ : 1 ≤ nChain.toNat then
        if h₄ : 1 ≤ gMax.toNat then
          .ok ⟨t0Ns.toNat, tIntNs.toNat, d.toNat, nChain.toNat, dTNs.toNat, gMax.toNat,
            h₁, h₂, h₃, h₄, nChain.toNat_lt⟩
        else .error .zeroMisorderingCap
      else .error .emptyChain
    else .error .delayBelowTwo
  else .error .zeroInterval

def intervalOf (s : TeslaSchedule) (sendNs : ℕ) : Except Panic ℕ :=
  if sendNs < s.t0Ns then .error .sendBeforeStart
  else
    let passed := (sendNs - s.t0Ns) / s.tIntNs
    -- `1 + passed` is a 64-bit number
    if passed = u64Max then .error .overflow
    else if 1 + passed > s.nChain then .error (.chainExhausted (1 + passed) s.nChain)
    else .ok (1 + passed)

def disclosedIndex (s : TeslaSchedule) (interval : ℕ) : ℕ := interval - s.d

/-- The last interval the sender can be in when the receiver's clock reads `arrivalNs`. -/
def senderUpperBound (s : TeslaSchedule) (arrivalNs : ℕ) : Except Panic ℕ :=
  let senderClock := min (arrivalNs + s.dTNs) u64Max
  let passed := (senderClock - s.t0Ns) / s.tIntNs
  if passed = u64Max then .error .overflow else .ok (1 + passed)

def accepts (s : TeslaSchedule) (arrivalNs interval : ℕ) : Except Panic IntervalCheck :=
  match s.senderUpperBound arrivalNs with
  | .error p => .error p
  | .ok x => if x < interval + s.d then .ok .safe else .ok .unsafeLate

variable {s : TeslaSchedule} {sendNs arrivalNs interval i : ℕ}

theorem new_ok {t0Ns tIntNs dTNs : UInt64} {d nChain gMax : UInt32}
    (h : new t0Ns tIntNs d nChain dTNs gMax = .ok s) :
    s.t0Ns = t0Ns.toNat ∧ s.tIntNs = tIntNs.toNat ∧ s.d = d.toNat ∧ s.nChain = nChain.toNat ∧
      s.dTNs = dTNs.toNat ∧ s.gMax = gMax.toNat := by
  unfold new at h
  split_ifs at h
  cases h
  exact ⟨rfl, rfl, rfl, rfl, rfl, rfl⟩

theorem intervalOf_ok (h : s.intervalOf sendNs = .ok i) :
    i = 1 + (sendNs - s.t0Ns) / s.tIntNs ∧ 1 ≤ i ∧ i ≤ s.nChain := by
  unfold intervalOf at h
  dsimp only at h
  split_ifs at h with h₁ h₂ h₃
  cases h
  exact ⟨rfl, Nat.le_add_right 1 _, not_lt.mp h₃⟩

theorem exists_intervalOf_iff (s : TeslaSchedule) (sendNs : ℕ) :
    (∃ i, s.intervalOf sendNs = .ok i) ↔
      s.t0Ns ≤ sendNs ∧ sendNs < s.t0Ns + s.nChain * s.tIntNs := by
  have hdiv : (sendNs - s.t0Ns) / s.tIntNs < s.nChain ↔
      sendNs - s.t0Ns < s.nChain * s.tIntNs := Nat.div_lt_iff_lt_mul s.tIntNs_pos
  have hmax : s.nChain < u64Max := s.nChain_lt.trans (by decide)
  unfold intervalOf
  dsimp only
  split_ifs with h₁ h₂ h₃ <;> simp only [exists_false, Except.ok.injEq, exists_eq',
    false_iff, true_iff] <;> omega

theorem intervalOf_mono {later j : ℕ} (hi : s.intervalOf sendNs = .ok i)
    (hj : s.intervalOf later = .ok j) (h : sendNs ≤ later) : i ≤ j := by
  obtain ⟨rfl, -, -⟩ := intervalOf_ok hi
  obtain ⟨rfl, -, -⟩ := intervalOf_ok hj
  gcongr

theorem disclosedIndex_lt_of_le {later j : ℕ} (hi : s.intervalOf sendNs = .ok i)
    (hj : s.intervalOf later = .ok j) (h : sendNs ≤ later) : s.disclosedIndex i < j := by
  have hmono := intervalOf_mono hi hj h
  obtain ⟨-, hpos, -⟩ := intervalOf_ok hj
  have hd := s.two_le_d
  unfold disclosedIndex
  omega

theorem exists_new_iff (t0Ns tIntNs dTNs : UInt64) (d nChain gMax : UInt32) :
    (∃ s, new t0Ns tIntNs d nChain dTNs gMax = .ok s) ↔
      0 < tIntNs.toNat ∧ 2 ≤ d.toNat ∧ 1 ≤ nChain.toNat ∧ 1 ≤ gMax.toNat := by
  unfold new
  split_ifs with h₁ h₂ h₃ h₄ <;> simp_all

theorem exists_accepts_iff (s : TeslaSchedule) (arrivalNs interval : ℕ) :
    (∃ check, s.accepts arrivalNs interval = .ok check) ↔
      ¬ (s.t0Ns = 0 ∧ s.tIntNs = 1 ∧ u64Max ≤ arrivalNs + s.dTNs) := by
  have hover : (min (arrivalNs + s.dTNs) u64Max - s.t0Ns) / s.tIntNs = u64Max ↔
      s.t0Ns = 0 ∧ s.tIntNs = 1 ∧ u64Max ≤ arrivalNs + s.dTNs := by
    have hu : 0 < u64Max := by decide
    constructor
    · intro h
      have hmul := Nat.div_mul_le_self (min (arrivalNs + s.dTNs) u64Max - s.t0Ns) s.tIntNs
      rw [h] at hmul
      have hone : s.tIntNs = 1 := by
        by_contra hne
        have htwo : 2 ≤ s.tIntNs := by
          have := s.tIntNs_pos
          omega
        have := Nat.mul_le_mul_left u64Max htwo
        omega
      rw [hone] at hmul
      omega
    · rintro ⟨ht, hint, hle⟩
      rw [ht, hint, min_eq_right hle, Nat.sub_zero, Nat.div_one]
  rw [← hover]
  unfold accepts senderUpperBound
  dsimp only
  split_ifs with h
  · simp [h]
  · dsimp only
    split_ifs <;> simp [h]

/-- Two schedules with the same timetable; the values local to a party may differ. -/
structure SameTable (s t : TeslaSchedule) : Prop where
  t0Ns : s.t0Ns = t.t0Ns
  tIntNs : s.tIntNs = t.tIntNs
  d : s.d = t.d
  nChain : s.nChain = t.nChain

variable {t : TeslaSchedule}

theorem SameTable.intervalOf_eq (h : s.SameTable t) (sendNs : ℕ) :
    s.intervalOf sendNs = t.intervalOf sendNs := by
  unfold intervalOf
  rw [h.t0Ns, h.tIntNs, h.nChain]

theorem SameTable.disclosedIndex_eq (h : s.SameTable t) (interval : ℕ) :
    s.disclosedIndex interval = t.disclosedIndex interval := by
  unfold disclosedIndex
  rw [h.d]

/-- An accepted interval's key cannot have been disclosed: whatever the sender sent while
its clock was within the bound belongs to an interval before `interval + d`. -/
theorem disclosedIndex_lt_of_accepts (h : s.accepts arrivalNs interval = .ok .safe)
    (hsend : s.intervalOf sendNs = .ok i) (hclock : sendNs ≤ arrivalNs + s.dTNs)
    (hu64 : sendNs ≤ u64Max) : i < interval + s.d := by
  obtain ⟨rfl, -, -⟩ := intervalOf_ok hsend
  unfold accepts senderUpperBound at h
  dsimp only at h
  split_ifs at h with hover
  dsimp only at h
  split_ifs at h with hlt
  swap
  · cases h
  have hle : (sendNs - s.t0Ns) / s.tIntNs ≤
      (min (arrivalNs + s.dTNs) u64Max - s.t0Ns) / s.tIntNs := by
    gcongr
    exact le_min hclock hu64
  omega

theorem accepts_safe_iff (s : TeslaSchedule) (interval : ℕ) (h : arrivalNs + s.dTNs < u64Max) :
    s.accepts arrivalNs interval = .ok .safe ↔
      arrivalNs + s.dTNs < s.t0Ns + (interval + s.d - 1) * s.tIntNs := by
  have hd := s.two_le_d
  have hover : (arrivalNs + s.dTNs - s.t0Ns) / s.tIntNs ≠ u64Max := by
    have := Nat.div_le_self (arrivalNs + s.dTNs - s.t0Ns) s.tIntNs
    omega
  have hiff : 1 + (arrivalNs + s.dTNs - s.t0Ns) / s.tIntNs < interval + s.d ↔
      arrivalNs + s.dTNs < s.t0Ns + (interval + s.d - 1) * s.tIntNs := by
    have hpos : 0 < (interval + s.d - 1) * s.tIntNs := Nat.mul_pos (by omega) s.tIntNs_pos
    calc 1 + (arrivalNs + s.dTNs - s.t0Ns) / s.tIntNs < interval + s.d
        ↔ (arrivalNs + s.dTNs - s.t0Ns) / s.tIntNs < interval + s.d - 1 := by omega
      _ ↔ arrivalNs + s.dTNs - s.t0Ns < (interval + s.d - 1) * s.tIntNs :=
          Nat.div_lt_iff_lt_mul s.tIntNs_pos
      _ ↔ _ := by omega
  simp only [accepts, senderUpperBound, min_eq_left h.le, if_neg hover]
  rw [← hiff]
  split_ifs with hlt <;> simp [hlt]

theorem lt_of_intervalOf (h : s.intervalOf sendNs = .ok i) : sendNs < s.t0Ns + i * s.tIntNs := by
  obtain ⟨rfl, -, -⟩ := intervalOf_ok h
  have hlt := Nat.lt_mul_div_succ (sendNs - s.t0Ns) s.tIntNs_pos
  rw [Nat.mul_comm, Nat.add_comm _ 1] at hlt
  omega

/-- The accept test is exact; so it passes every packet within the travel budget, and a packet
that passes was tagged with a key the sender has not disclosed by then. -/
theorem accepts_exact (s : TeslaSchedule) (arrivalNs i : ℕ) (h : arrivalNs + s.dTNs < u64Max) :
    (∃ check, s.accepts arrivalNs i = .ok check) ∧
      (s.accepts arrivalNs i = .ok .safe ↔
        arrivalNs + s.dTNs < s.t0Ns + (i + s.d - 1) * s.tIntNs) ∧
      (∀ sendNs, s.intervalOf sendNs = .ok i →
        arrivalNs + s.dTNs ≤ sendNs + (s.d - 1) * s.tIntNs → s.accepts arrivalNs i = .ok .safe) ∧
      (s.accepts arrivalNs i = .ok .safe → ∀ sendNs j, s.t0Ns ≤ sendNs →
        sendNs ≤ arrivalNs + s.dTNs → s.intervalOf sendNs = .ok j →
        s.disclosedIndex j < i ∨ i = 0) := by
  refine ⟨(s.exists_accepts_iff arrivalNs i).mpr fun hover => absurd hover.2.2 (not_le.mpr h),
    accepts_safe_iff s i h, ?_, ?_⟩
  · intro sendNs hsend hbudget
    have hlt := lt_of_intervalOf hsend
    have hsplit : (i + s.d - 1) * s.tIntNs = i * s.tIntNs + (s.d - 1) * s.tIntNs := by
      rw [Nat.add_sub_assoc (by have := s.two_le_d; omega), Nat.add_mul]
    rw [accepts_safe_iff s i h, hsplit]
    omega
  · intro hsafe sendNs j _ hclock hsend
    have hlt := disclosedIndex_lt_of_accepts hsafe hsend hclock (hclock.trans h.le)
    unfold disclosedIndex
    omega

theorem accepts_boundary :
    let s : TeslaSchedule :=
      ⟨0, 10, 2, 5, 3, 8, by decide, by decide, by decide, by decide, by decide⟩
    s.accepts 16 1 = .ok .safe ∧ s.accepts 17 1 ≠ .ok .safe := by
  intro s
  refine ⟨(accepts_exact s 16 1 (by decide)).2.1.mpr (by decide), ?_⟩
  intro h
  exact absurd ((accepts_exact s 17 1 (by decide)).2.1.mp h) (by decide)

end TeslaSchedule

end SafeCast
