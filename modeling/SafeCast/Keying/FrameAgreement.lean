import SafeCast.Library.Changes
import SafeCast.Receiver.Generation
import SafeCast.Simulation.Sender

/-! # Frame-level generations at both ends

The sender starts a new generation whenever the timestamp changes; the receiver divides the
elapsed ticks, modulo `2 ^ 32`, by the frame period. So the sender counts changes and the
receiver counts periods, and they agree as long as every frame is sent and the elapsed time
fits 32 bits.
-/

namespace SafeCast

open Changes Runs

/-! ## The sender's rule -/

namespace RekeyingStream

variable {c : Crypto} {s s₀ : RekeyingStream} {packet : Bytes} {stamps : List ℕ}

/-- A frame-level sender after packets with the given timestamps. -/
structure FrameKeyed (stamps : List ℕ) (s : RekeyingStream) : Prop where
  granularity : s.granularity = .frame
  installedGen : s.installedGen = changes stamps
  ratchet : s.ratchet.generation = changes stamps + 1
  started : s.started = !stamps.isEmpty
  lastTs : s.lastTs = stamps.getLast?

theorem frameKeyed_new {throwaway : KeySalt} {ssrc : ℕ} {ratchet : StreamRatchet}
    (hfresh : ratchet.generation = 0) (h : new c throwaway .frame ssrc ratchet = .ok s) :
    FrameKeyed [] s := by
  unfold new at h
  split at h
  · cases h
  · cases h
    exact ⟨rfl, hfresh, congrArg (· + 1) hfresh, rfl, rfl⟩

theorem FrameKeyed.advanceFor (h : FrameKeyed stamps s) (ts : ℕ) :
    ∃ s', s.advanceFor c ts = .ok s' ∧ FrameKeyed (stamps ++ [ts]) s' := by
  unfold RekeyingStream.advanceFor crossedBoundary
  rw [h.granularity, h.started, h.lastTs]
  refine ⟨_, rfl, ?_⟩
  rcases List.eq_nil_or_concat' stamps with rfl | ⟨stamps, last, rfl⟩
  · exact ⟨h.granularity, h.installedGen, h.ratchet, rfl, rfl⟩
  · have hgen := h.installedGen
    have hratchet := h.ratchet
    by_cases heq : last = ts
    · subst heq
      constructor <;> simp [h.granularity, hgen, hratchet, changes_concat]
    · constructor <;>
        simp [h.granularity, hratchet, changes_concat, heq, installNextGeneration,
          StreamRatchet.nextKeySalt, StreamRatchet.advance]

theorem FrameKeyed.protect (h : FrameKeyed stamps s) (hlen : rtpHeaderLen ≤ packet.length) :
    ∃ out s', s.protect c packet = .ok (out, s') ∧
      FrameKeyed (stamps ++ [timestampOf packet]) s' := by
  obtain ⟨s', hadvance, hs'⟩ := h.advanceFor (c := c) (timestampOf packet)
  unfold RekeyingStream.protect
  rw [if_neg (not_lt.mpr hlen), hadvance]
  exact ⟨_, _, rfl, hs'.granularity, hs'.installedGen, hs'.ratchet, hs'.started, hs'.lastTs⟩

theorem FrameKeyed.run {packets : List Bytes} (h : FrameKeyed stamps s)
    (hlen : ∀ packet ∈ packets, rtpHeaderLen ≤ packet.length) :
    ∃ outs s', run (RekeyingStream.protect c) s packets = .ok (outs, s') ∧
      FrameKeyed (stamps ++ packets.map timestampOf) s' := by
  induction packets generalizing s stamps with
  | nil => exact ⟨[], s, rfl, by simpa using h⟩
  | cons packet packets ih =>
    obtain ⟨out, s₁, hstep, h₁⟩ := h.protect (c := c) (hlen packet List.mem_cons_self)
    obtain ⟨outs, s', hrun, h'⟩ := ih h₁ fun p hp => hlen p (List.mem_cons_of_mem _ hp)
    refine ⟨out :: outs, s', run_cons_ok_iff.mpr ⟨out, s₁, outs, hstep, hrun, rfl⟩, ?_⟩
    simpa using h'

/-! ## The simulated stream -/

theorem changes_timestamp (m : StreamModel) (i : ℕ) :
    changes ((List.range (i + 1)).map m.timestamp) = i / m.packetsPerFrame := by
  induction i with
  | zero => simp [changes]
  | succ i ih =>
    have hstep := Nat.succ_div (a := i) (b := m.packetsPerFrame)
    have hts := m.timestamp_eq_iff i
    rw [List.range_succ, List.map_append] at ih ⊢
    rw [List.range_succ, List.map_append, List.append_assoc]
    simp only [List.map_cons, List.map_nil, List.singleton_append] at ih ⊢
    rw [changes_concat, ih]
    by_cases heq : m.timestamp i = m.timestamp (i + 1)
    · rw [if_pos heq, Nat.add_zero, hts.mp heq.symm]
    · have hne := mt hts.mpr (Ne.symm heq)
      rw [if_neg heq]
      split_ifs at hstep <;> omega

theorem timestampOf_plainPacket (m : StreamModel) (i : ℕ) :
    timestampOf (m.plainPacket i) = m.timestamp i := by
  rw [StreamModel.plainPacket, StreamModel.header, timestampOf_rtpHeader]
  exact Nat.mod_mod _ _

theorem run_plainPackets {throwaway : KeySalt} {m : StreamModel} {ratchet : StreamRatchet}
    (hfresh : ratchet.generation = 0)
    (hnew : new c throwaway .frame m.ssrc.toNat ratchet = .ok s₀) (i : ℕ) :
    ∃ outs s, run (RekeyingStream.protect c) s₀ ((List.range (i + 1)).map m.plainPacket) =
      .ok (outs, s) ∧ s.installedGen = i / m.packetsPerFrame := by
  have hlen : ∀ packet ∈ (List.range (i + 1)).map m.plainPacket,
      rtpHeaderLen ≤ packet.length := by
    simp [StreamModel.plainPacket, StreamModel.header]
  obtain ⟨outs, s, hrun, hs⟩ := (frameKeyed_new hfresh hnew).run (c := c) hlen
  refine ⟨outs, s, hrun, ?_⟩
  have hstamps : ((List.range (i + 1)).map m.plainPacket).map timestampOf =
      (List.range (i + 1)).map m.timestamp := by
    simp only [List.map_map, Function.comp_def, timestampOf_plainPacket]
  rw [hs.installedGen, List.nil_append, hstamps, changes_timestamp]

/-- Both ends agree on packet `i` exactly while the elapsed time of its frame fits 32 bits. -/
theorem frameGeneration_agrees_iff (c : Crypto) (throwaway : KeySalt) (m : StreamModel)
    {ratchet : StreamRatchet} (hfresh : ratchet.generation = 0)
    (hnew : new c throwaway .frame m.ssrc.toNat ratchet = .ok s₀) (i : ℕ) :
    ∃ outs s, run (RekeyingStream.protect c) s₀ ((List.range (i + 1)).map m.plainPacket) =
        .ok (outs, s) ∧
      (frameGeneration (timestampOf (m.plainPacket i)) startTs framePeriod = .ok s.installedGen ↔
        i / m.packetsPerFrame * framePeriod < 2 ^ 32) := by
  obtain ⟨outs, s, hrun, hgen⟩ := run_plainPackets hfresh hnew i
  refine ⟨outs, s, hrun, ?_⟩
  rw [hgen, timestampOf_plainPacket, frameGeneration, if_neg (by decide), Except.ok.injEq]
  unfold StreamModel.timestamp startTs framePeriod
  omega

def wholeFrames : StreamModel := ⟨frameBytes, 7, by decide⟩

theorem frameGeneration_agrees_at_end :
    ∃ s₀ outs s, new Crypto.toy (ByteArr.replicate _ 0) .frame wholeFrames.ssrc.toNat
        ⟨ByteArr.replicate _ 0, 0⟩ = .ok s₀ ∧
      run (RekeyingStream.protect Crypto.toy) s₀
        ((List.range (2863311 + 1)).map wholeFrames.plainPacket) = .ok (outs, s) ∧
      frameGeneration (timestampOf (wholeFrames.plainPacket 2863311)) startTs framePeriod =
        .ok s.installedGen := by
  obtain ⟨s₀, hnew⟩ : ∃ s₀, new Crypto.toy (ByteArr.replicate _ 0) .frame
    wholeFrames.ssrc.toNat ⟨ByteArr.replicate _ 0, 0⟩ = .ok s₀ := ⟨_, rfl⟩
  obtain ⟨outs, s, hrun, hiff⟩ :=
    frameGeneration_agrees_iff Crypto.toy (ByteArr.replicate _ 0) wholeFrames rfl hnew 2863311
  exact ⟨s₀, outs, s, hnew, hrun, hiff.mpr (by decide)⟩

/-- After `2 ^ 32` ticks the sender has installed generation 2863312, and the receiver starts
again from 0. -/
theorem frameGeneration_restarts :
    ∃ s₀ outs s, new Crypto.toy (ByteArr.replicate _ 0) .frame wholeFrames.ssrc.toNat
        ⟨ByteArr.replicate _ 0, 0⟩ = .ok s₀ ∧
      run (RekeyingStream.protect Crypto.toy) s₀
        ((List.range (2863312 + 1)).map wholeFrames.plainPacket) = .ok (outs, s) ∧
      s.installedGen = 2863312 ∧
      frameGeneration (timestampOf (wholeFrames.plainPacket 2863312)) startTs framePeriod =
        .ok 0 := by
  obtain ⟨s₀, hnew⟩ : ∃ s₀, new Crypto.toy (ByteArr.replicate _ 0) .frame
    wholeFrames.ssrc.toNat ⟨ByteArr.replicate _ 0, 0⟩ = .ok s₀ := ⟨_, rfl⟩
  obtain ⟨outs, s, hrun, hgen⟩ := run_plainPackets (m := wholeFrames) rfl hnew 2863312
  refine ⟨s₀, outs, s, hnew, hrun, hgen.trans (by decide), ?_⟩
  rw [timestampOf_plainPacket]
  decide

/-! ## Any pattern of frames -/

theorem frameGeneration_of_period {epochStartTs period m : ℕ} (hstart : epochStartTs < 2 ^ 32)
    (hperiod : 1 ≤ period) (hm : m * period < 2 ^ 32) :
    frameGeneration ((epochStartTs + m * period) % 2 ^ 32) epochStartTs period = .ok m := by
  have helapsed : ((epochStartTs + m * period) % 2 ^ 32 + (2 ^ 32 - epochStartTs)) % 2 ^ 32 =
      m * period := by omega
  rw [frameGeneration, if_neg (Nat.one_le_iff_ne_zero.mp hperiod), helapsed,
    Nat.mul_div_cancel m hperiod]

theorem timestamp_inj {epochStartTs period m m' : ℕ} (hperiod : 1 ≤ period)
    (hm : m * period < 2 ^ 32) (hm' : m' * period < 2 ^ 32) :
    (epochStartTs + m * period) % 2 ^ 32 = (epochStartTs + m' * period) % 2 ^ 32 ↔ m = m' := by
  constructor
  · intro h
    have hmul : m * period = m' * period := by omega
    exact Nat.eq_of_mul_eq_mul_right hperiod hmul
  · rintro rfl
    rfl

/-- What the two ends compute for the last of some packets, each with its frame number: the
sender the number of changes, the receiver the frame number. -/
theorem last_packet_agrees_iff {throwaway : KeySalt} {ssrc : ℕ} {ratchet : StreamRatchet}
    (hfresh : ratchet.generation = 0) (hnew : new c throwaway .frame ssrc ratchet = .ok s₀)
    {epochStartTs period : ℕ} (hstart : epochStartTs < 2 ^ 32) (hperiod : 1 ≤ period)
    {pre : List (ℕ × Bytes)} {p : ℕ × Bytes}
    (hlen : ∀ q ∈ pre ++ [p], rtpHeaderLen ≤ q.2.length)
    (hstamp : ∀ q ∈ pre ++ [p], timestampOf q.2 = (epochStartTs + q.1 * period) % 2 ^ 32)
    (hfit : ∀ q ∈ pre ++ [p], q.1 * period < 2 ^ 32) :
    (∃ outs s, run (RekeyingStream.protect c) s₀ ((pre ++ [p]).map Prod.snd) = .ok (outs, s) ∧
        frameGeneration (timestampOf p.2) epochStartTs period = .ok s.installedGen) ↔
      changes (pre.map Prod.fst ++ [p.1]) = p.1 := by
  have hp : p ∈ pre ++ [p] := by simp
  have hshort : ∀ packet ∈ (pre ++ [p]).map Prod.snd, rtpHeaderLen ≤ packet.length := by
    intro packet hpacket
    obtain ⟨q, hq, rfl⟩ := List.mem_map.mp hpacket
    exact hlen q hq
  obtain ⟨outs, s, hrun, hs⟩ := (frameKeyed_new hfresh hnew).run (c := c) hshort
  have hgen : s.installedGen = changes ((pre ++ [p]).map Prod.fst) := by
    rw [hs.installedGen, List.nil_append, List.map_map]
    apply changes_map
    intro q hq q' hq'
    simp only [Function.comp_apply, hstamp q hq, hstamp q' hq']
    exact timestamp_inj hperiod (hfit q hq) (hfit q' hq')
  rw [hstamp p hp, frameGeneration_of_period hstart hperiod (hfit p hp)]
  rw [List.map_append] at hgen
  constructor
  · rintro ⟨outs', s', hrun', hagree⟩
    cases hrun.symm.trans hrun'
    exact hgen.symm.trans (Except.ok.inj hagree).symm
  · intro h
    exact ⟨outs, s, hrun, congrArg Except.ok (hgen.trans h).symm⟩

/-- For packets in order, each with its frame number, both ends agree on every packet exactly
if no frame number is skipped. -/
theorem frame_pattern_agrees_iff (c : Crypto) (throwaway : KeySalt) (ssrc : ℕ)
    {ratchet : StreamRatchet} (hfresh : ratchet.generation = 0)
    (hnew : new c throwaway .frame ssrc ratchet = .ok s₀) (epochStartTs period : ℕ)
    (hstart : epochStartTs < 2 ^ 32) (hperiod : 1 ≤ period) (packets : List (ℕ × Bytes))
    (hlen : ∀ p ∈ packets, rtpHeaderLen ≤ p.2.length)
    (hstamp : ∀ p ∈ packets, timestampOf p.2 = (epochStartTs + p.1 * period) % 2 ^ 32)
    (hfit : ∀ p ∈ packets, p.1 * period < 2 ^ 32) (hfirst : ∀ p ∈ packets.head?, p.1 = 0)
    (hmono : (packets.map Prod.fst).Pairwise (· ≤ ·)) :
    (∀ pre p, pre ++ [p] <+: packets → ∃ outs s,
        run (RekeyingStream.protect c) s₀ ((pre ++ [p]).map Prod.snd) = .ok (outs, s) ∧
          frameGeneration (timestampOf p.2) epochStartTs period = .ok s.installedGen) ↔
      (packets.map Prod.fst).IsChain fun m m' => m' ≤ m + 1 := by
  have hlast : ∀ pre p, pre ++ [p] <+: packets → _ := fun pre p hpre =>
    last_packet_agrees_iff hfresh hnew hstart hperiod (fun q hq => hlen q (hpre.subset hq))
      (fun q hq => hstamp q (hpre.subset hq)) (fun q hq => hfit q (hpre.subset hq))
  rw [← forall_changes_eq_iff _ hmono]
  · constructor
    · intro h pre m hpre
      obtain ⟨pairs, hpairs, heq⟩ := List.prefix_map_iff.mp hpre
      obtain ⟨pre', last, rfl, rfl, hsingle⟩ := List.map_eq_append_iff.mp heq.symm
      obtain ⟨p, rfl, rfl⟩ := List.map_eq_singleton_iff.mp hsingle
      exact (hlast pre' p hpairs).mp (h pre' p hpairs)
    · intro h pre p hpre
      apply (hlast pre p hpre).mpr
      apply h
      simpa using hpre.map Prod.fst
  · intro m hm
    rw [List.head?_map] at hm
    obtain ⟨p, hp, rfl⟩ := Option.mem_map.mp hm
    exact hfirst p hp

theorem frame_pattern_agrees_consecutive :
    ∃ s₀ outs s, new Crypto.toy (ByteArr.replicate _ 0) .frame 7 ⟨ByteArr.replicate _ 0, 0⟩ =
        .ok s₀ ∧
      run (RekeyingStream.protect Crypto.toy) s₀
        [rtpHeader 0 1000 7, rtpHeader 1 1000 7, rtpHeader 2 2500 7] = .ok (outs, s) ∧
      frameGeneration (timestampOf (rtpHeader 2 2500 7)) 1000 1500 = .ok s.installedGen := by
  obtain ⟨s₀, hnew⟩ : ∃ s₀, new Crypto.toy (ByteArr.replicate _ 0) .frame 7
    ⟨ByteArr.replicate _ 0, 0⟩ = .ok s₀ := ⟨_, rfl⟩
  have hagree := (frame_pattern_agrees_iff Crypto.toy (ByteArr.replicate _ 0) 7 rfl hnew 1000 1500
    (by decide) (by decide) [(0, rtpHeader 0 1000 7), (0, rtpHeader 1 1000 7),
      (1, rtpHeader 2 2500 7)] (by decide) (by decide) (by decide) (by decide) (by decide)).mpr
    (by decide)
  obtain ⟨outs, s, hrun, hgen⟩ := hagree [(0, rtpHeader 0 1000 7), (0, rtpHeader 1 1000 7)]
    (1, rtpHeader 2 2500 7) List.prefix_rfl
  exact ⟨s₀, outs, s, hnew, hrun, hgen⟩

/-- The source drops frame 1: for frame 2 the sender installs generation 1 and the receiver
computes 2. -/
theorem frame_pattern_skips :
    ∃ s₀ outs s, new Crypto.toy (ByteArr.replicate _ 0) .frame 7 ⟨ByteArr.replicate _ 0, 0⟩ =
        .ok s₀ ∧
      run (RekeyingStream.protect Crypto.toy) s₀ [rtpHeader 0 1000 7, rtpHeader 1 4000 7] =
        .ok (outs, s) ∧
      s.installedGen = 1 ∧
      frameGeneration (timestampOf (rtpHeader 1 4000 7)) 1000 1500 = .ok 2 := by
  obtain ⟨s₀, hnew⟩ : ∃ s₀, new Crypto.toy (ByteArr.replicate _ 0) .frame 7
    ⟨ByteArr.replicate _ 0, 0⟩ = .ok s₀ := ⟨_, rfl⟩
  obtain ⟨outs, s, hrun, hs⟩ := (frameKeyed_new rfl hnew).run (c := Crypto.toy)
    (show ∀ packet ∈ [rtpHeader 0 1000 7, rtpHeader 1 4000 7], rtpHeaderLen ≤ packet.length by
      decide)
  exact ⟨s₀, outs, s, hnew, hrun, hs.installedGen.trans (by decide), by decide⟩

end RekeyingStream

end SafeCast
