import SafeCast.Simulation.Sender

/-! # The pacing of the sender

Frame starts and places in a frame are rounded down separately. Both roundings lose less than
one nanosecond, so consecutive packets are never closer than the rounded spacing, also across
a frame boundary, and at most two nanoseconds further apart.
-/

namespace SafeCast

namespace StreamModel

variable (m : StreamModel)

def minGapNs : ℕ := 1000000000 / (fps * m.packetsPerFrame)

/-- The send time without the limits of 64 bits. -/
def sendTime (i : ℕ) : ℕ :=
  i / m.packetsPerFrame * 1000000000 / fps +
    i % m.packetsPerFrame * 1000000000 / (fps * m.packetsPerFrame)

theorem packetsPerFrame_pos : 0 < m.packetsPerFrame :=
  lt_of_lt_of_le Nat.one_pos (le_max_right _ _)

theorem packetsPerFrame_le : m.packetsPerFrame ≤ 648000 := by
  have hdiv : frameBytes / m.payloadSize ≤ frameBytes / 8 :=
    Nat.div_le_div_left m.payloadSize_ge (by decide)
  have hmax : frameBytes / 8 = 648000 := by decide
  unfold packetsPerFrame
  omega

theorem minGapNs_pos : 1 ≤ m.minGapNs := by
  have hle := m.packetsPerFrame_le
  have hpos := m.packetsPerFrame_pos
  unfold minGapNs fps
  rw [Nat.one_le_div_iff (by omega)]
  omega

theorem sendNs_eq (i : ℕ) : m.sendNs i =
    if u64Max < i / m.packetsPerFrame * 1000000000 then .error .overflow
    else .ok (m.sendTime i) := by
  have hle := m.packetsPerFrame_le
  have hmod := Nat.mod_lt i m.packetsPerFrame_pos
  have hoffset : i % m.packetsPerFrame * 1000000000 / (fps * m.packetsPerFrame) ≤
      i % m.packetsPerFrame * 1000000000 := Nat.div_le_self _ _
  unfold sendNs sendTime
  dsimp only
  by_cases h : u64Max < i / m.packetsPerFrame * 1000000000
  · rw [if_pos (.inl h), if_pos h]
  · rw [if_neg h, if_neg]
    unfold u64Max fps at *
    omega

theorem sendNs_of_fit {i : ℕ} (h : i / m.packetsPerFrame * 1000000000 < 2 ^ 64) :
    m.sendNs i = .ok (m.sendTime i) := by
  rw [sendNs_eq, if_neg]
  unfold u64Max
  omega

theorem sendNs_of_next_fit {i j : ℕ} (hij : i ≤ j + 1)
    (h : (j / m.packetsPerFrame + 1) * 1000000000 < 2 ^ 64) : m.sendNs i = .ok (m.sendTime i) := by
  have hle : i / m.packetsPerFrame ≤ (j + 1) / m.packetsPerFrame := Nat.div_le_div_right hij
  have hnext : (j + 1) / m.packetsPerFrame ≤ j / m.packetsPerFrame + 1 := by
    rw [Nat.succ_div]
    split_ifs <;> omega
  apply m.sendNs_of_fit
  calc i / m.packetsPerFrame * 1000000000
      ≤ (j / m.packetsPerFrame + 1) * 1000000000 := Nat.mul_le_mul_right _ (hle.trans hnext)
    _ < 2 ^ 64 := h

theorem sendNs_ok {i t : ℕ} (h : m.sendNs i = .ok t) : t = m.sendTime i := by
  rw [sendNs_eq] at h
  split_ifs at h
  exact (Except.ok.inj h).symm

/-! ## Spacing -/

theorem add_div_bounds (a b c : ℕ) :
    a / c + b / c ≤ (a + b) / c ∧ (a + b) / c ≤ a / c + b / c + 1 := by
  rcases Nat.eq_zero_or_pos c with rfl | hc
  · simp
  · rw [Nat.add_div hc]
    split_ifs <;> omega

/-- The places `p` and `p + 1` in a frame; place `packetsPerFrame` is the end of the frame. -/
theorem offset_succ (p : ℕ) :
    p * 1000000000 / (fps * m.packetsPerFrame) + m.minGapNs ≤
        (p + 1) * 1000000000 / (fps * m.packetsPerFrame) ∧
      (p + 1) * 1000000000 / (fps * m.packetsPerFrame) ≤
        p * 1000000000 / (fps * m.packetsPerFrame) + m.minGapNs + 1 := by
  rw [Nat.add_mul, Nat.one_mul]
  exact add_div_bounds _ _ _

theorem sendTime_frame (f : ℕ) : m.sendTime (f * m.packetsPerFrame) = f * 1000000000 / fps := by
  simp [sendTime, Nat.mul_div_cancel _ m.packetsPerFrame_pos]

theorem sendTime_succ (i : ℕ) :
    m.sendTime i + m.minGapNs ≤ m.sendTime (i + 1) ∧
      m.sendTime (i + 1) ≤ m.sendTime i + m.minGapNs + 2 := by
  have hpos := m.packetsPerFrame_pos
  have hoffset := m.offset_succ (i % m.packetsPerFrame)
  by_cases hlast : i % m.packetsPerFrame + 1 = m.packetsPerFrame
  · -- the next packet opens a frame: the end of this one is rounded down there
    have hnext : i + 1 = (i / m.packetsPerFrame + 1) * m.packetsPerFrame := by
      have := Nat.div_add_mod' i m.packetsPerFrame
      rw [Nat.add_mul, Nat.one_mul]
      omega
    have hend : m.packetsPerFrame * 1000000000 / (fps * m.packetsPerFrame) = 1000000000 / fps := by
      rw [Nat.mul_comm fps, Nat.mul_div_mul_left _ _ hpos]
    have hframe := add_div_bounds (i / m.packetsPerFrame * 1000000000) 1000000000 fps
    rw [hlast, hend] at hoffset
    rw [hnext, sendTime_frame, Nat.add_mul, Nat.one_mul]
    unfold sendTime
    omega
  · have hsame : (i + 1) / m.packetsPerFrame = i / m.packetsPerFrame ∧
        (i + 1) % m.packetsPerFrame = i % m.packetsPerFrame + 1 := by
      have := Nat.mod_lt i hpos
      rw [Nat.div_mod_unique hpos]
      have := Nat.div_add_mod i m.packetsPerFrame
      omega
    unfold sendTime
    rw [hsame.1, hsame.2]
    omega

theorem sendTime_add (i d : ℕ) : m.sendTime i + d * m.minGapNs ≤ m.sendTime (i + d) := by
  induction d with
  | zero => simp
  | succ d ih =>
    have := (m.sendTime_succ (i + d)).1
    rw [Nat.add_mul, Nat.one_mul, ← Nat.add_assoc i d 1]
    omega

/-- The pacing, as long as the frame numbers fit. -/
theorem sendNs_paced :
    (∀ i, (i / m.packetsPerFrame + 1) * 1000000000 < 2 ^ 64 →
        ∃ t t', m.sendNs i = .ok t ∧ m.sendNs (i + 1) = .ok t' ∧
          t + 1000000000 / (60 * m.packetsPerFrame) ≤ t' ∧ t + 1 ≤ t' ∧
          t' ≤ t + 1000000000 / (60 * m.packetsPerFrame) + 2) ∧
      (∀ f, f * 1000000000 < 2 ^ 64 →
        m.sendNs (f * m.packetsPerFrame) = .ok (f * 1000000000 / 60)) ∧
      ∀ i j, i < j → ((j - 1) / m.packetsPerFrame + 1) * 1000000000 < 2 ^ 64 →
        ∃ t t', m.sendNs i = .ok t ∧ m.sendNs j = .ok t' ∧ t < t' ∧
          t + (j - i) * (1000000000 / (60 * m.packetsPerFrame)) ≤ t' := by
  have hdef : 1000000000 / (60 * m.packetsPerFrame) = m.minGapNs := rfl
  have hgap := m.minGapNs_pos
  rw [hdef]
  refine ⟨?_, ?_, ?_⟩
  · intro i hi
    obtain ⟨hmin, hmax⟩ := m.sendTime_succ i
    exact ⟨_, _, m.sendNs_of_next_fit i.le_succ hi, m.sendNs_of_next_fit le_rfl hi, hmin, by omega,
      hmax⟩
  · intro f hf
    rw [m.sendNs_of_fit (by rwa [Nat.mul_div_cancel _ m.packetsPerFrame_pos]), sendTime_frame, fps]
  · intro i j hij hj
    have hadd := m.sendTime_add i (j - i)
    rw [Nat.add_sub_cancel' hij.le] at hadd
    have hone : j - i ≤ (j - i) * m.minGapNs := Nat.le_mul_of_pos_right _ hgap
    exact ⟨_, _, m.sendNs_of_next_fit (by omega) hj, m.sendNs_of_next_fit (by omega) hj, by omega,
      hadd⟩

theorem sendNs_paced_at_boundary :
    ∃ m t t', new 1424 7 = .ok m ∧ m.sendNs 3639 = .ok t ∧ m.sendNs 3640 = .ok t' ∧
      t + 4578 ≤ t' ∧ t' ≤ t + 4580 := by
  obtain ⟨m, hm⟩ : ∃ m, new 1424 7 = .ok m := ⟨_, rfl⟩
  have hppf : m.packetsPerFrame = 3640 := by
    cases hm
    decide
  obtain ⟨t, t', ht, ht', hmin, -, hmax⟩ := (m.sendNs_paced).1 3639 (by rw [hppf]; norm_num)
  rw [hppf] at hmin hmax
  norm_num at hmin hmax
  exact ⟨m, t, t', hm, ht, ht', hmin, by omega⟩

end StreamModel

end SafeCast
