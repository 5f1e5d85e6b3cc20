import SafeCast.Keying.Granularity
import SafeCast.Library.Runs

/-! # The simulated sender

The stream is a function of the packet number: header fields, payload and frame. The
sender protects the packets in order with a `RekeyingStream`, which moves to the next
generation from its own packet count or from a change of timestamp.
`run_nextProtected` gives the bytes of every packet it produces.
-/

namespace SafeCast

open Runs

def frameBytes : ℕ := 1920 * 1080 * 5 / 2

def framePeriod : ℕ := 1500

def startTs : ℕ := 0

def fps : ℕ := 60

/-- The fixed RTP header of version 2 with payload type 96. -/
def rtpHeader (seq ts ssrc : ℕ) : Bytes :=
  [0x80, 96] ++ Bytes.toBe 2 seq ++ Bytes.toBe 4 ts ++ Bytes.toBe 4 ssrc

structure StreamModel where
  payloadSize : ℕ
  ssrc : UInt32
  payloadSize_ge : 8 ≤ payloadSize

namespace StreamModel

def new (payloadSize : ℕ) (ssrc : UInt32) : Except Panic StreamModel :=
  if h : 8 ≤ payloadSize then .ok ⟨payloadSize, ssrc, h⟩ else .error .payloadTooSmall

def packetsPerFrame (m : StreamModel) : ℕ := max (frameBytes / m.payloadSize) 1

def timestamp (m : StreamModel) (i : ℕ) : ℕ :=
  (startTs + i / m.packetsPerFrame % 2 ^ 32 * framePeriod % 2 ^ 32) % 2 ^ 32

/-- The send time of packet `i`, in nanoseconds from the start of the stream: the start of its
frame and its place in the frame are each rounded down. -/
def sendNs (m : StreamModel) (i : ℕ) : Except Panic ℕ :=
  let f := i / m.packetsPerFrame
  let p := i % m.packetsPerFrame
  let frameStart := f * 1000000000 / fps
  let offset := p * 1000000000 / (fps * m.packetsPerFrame)
  if u64Max < f * 1000000000 ∨ u64Max < p * 1000000000 ∨ u64Max < frameStart + offset then
    .error .overflow
  else .ok (frameStart + offset)

/-- Zeros behind the packet's own number. -/
def payload (m : StreamModel) (i : ℕ) : Bytes :=
  Bytes.toLe 8 i ++ List.replicate (m.payloadSize - 8) 0

def header (m : StreamModel) (i : ℕ) : Bytes := rtpHeader i (m.timestamp i) m.ssrc.toNat

def plainPacket (m : StreamModel) (i : ℕ) : Bytes := m.header i ++ m.payload i

def generation (m : StreamModel) (granularity : Granularity) (i : ℕ) : ℕ :=
  match granularity with
  | .epochOnly => 0
  | .frame => i / m.packetsPerFrame
  | .packet => i
  | .everyN n => i / n

end StreamModel

structure SimulatedSender where
  model : StreamModel
  crypto : RekeyingStream
  nextI : ℕ

namespace SimulatedSender

def new (c : Crypto) (throwaway : KeySalt) (model : StreamModel) (granularity : Granularity)
    (ratchet : StreamRatchet) : Except Panic SimulatedSender :=
  match RekeyingStream.new c throwaway granularity model.ssrc.toNat ratchet with
  | .error p => .error p
  | .ok crypto => .ok ⟨model, crypto, 0⟩

def nextProtected (c : Crypto) (s : SimulatedSender) :
    Except Panic ((ℕ × Bytes) × SimulatedSender) :=
  match s.crypto.protect c (s.model.plainPacket s.nextI) with
  | .error p => .error p
  | .ok (.error e, _) => .error (.protectFailed e)
  | .ok (.ok buf, crypto) => .ok ((s.nextI, buf), { s with crypto := crypto, nextI := s.nextI + 1 })

end SimulatedSender

/-! ## Headers -/

section Header

variable {seq ts ssrc : ℕ} {body : Bytes}

@[simp] theorem length_rtpHeader : (rtpHeader seq ts ssrc).length = rtpHeaderLen := by
  simp [rtpHeader, rtpHeaderLen]

@[simp] theorem take_rtpHeader :
    (rtpHeader seq ts ssrc ++ body).take rtpHeaderLen = rtpHeader seq ts ssrc :=
  List.take_left' length_rtpHeader

@[simp] theorem drop_rtpHeader : (rtpHeader seq ts ssrc ++ body).drop rtpHeaderLen = body :=
  List.drop_left' length_rtpHeader

@[simp] theorem seqOf_rtpHeader : seqOf (rtpHeader seq ts ssrc ++ body) = seq % 2 ^ 16 := by
  simp [seqOf, rtpHeader, Bytes.beNat_toBe]

@[simp] theorem timestampOf_rtpHeader :
    timestampOf (rtpHeader seq ts ssrc ++ body) = ts % 2 ^ 32 := by
  simp [timestampOf, rtpHeader, Bytes.beNat_toBe]

@[simp] theorem ssrcOf_rtpHeader : ssrcOf (rtpHeader seq ts ssrc ++ body) = ssrc % 2 ^ 32 := by
  rw [ssrcOf, rtpHeader, List.append_assoc _ (Bytes.toBe 4 ssrc), List.drop_left' (by simp),
    List.take_left' (by simp), Bytes.beNat_toBe]
  norm_num

@[simp] theorem encStart_rtpHeader : encStart (rtpHeader seq ts ssrc ++ body) = rtpHeaderLen := by
  simp [encStart, hasExtension, rtpHdrLen, csrcCount, rtpHeader]

@[simp] theorem validateRtpHeader_rtpHeader :
    validateRtpHeader (rtpHeader seq ts ssrc ++ body) = .ok () := by
  have hhdr : rtpHdrLen (rtpHeader seq ts ssrc ++ body) = rtpHeaderLen := by
    simp [rtpHdrLen, csrcCount, rtpHeader]
  have hext : hasExtension (rtpHeader seq ts ssrc ++ body) = false := by
    simp [hasExtension, rtpHeader]
  simp [validateRtpHeader, hhdr, hext]

def sealedPacket (c : Crypto) (ks : KeySalt) (seq ts ssrc est : ℕ) (body : Bytes) : Bytes :=
  rtpHeader seq ts ssrc ++ c.gcmSeal (splitKeySalt ks).1 (calcAeadIv (splitKeySalt ks).2 ssrc est)
    (rtpHeader seq ts ssrc) body

@[simp] theorem length_sealedPacket (c : Crypto) (ks : KeySalt) (est : ℕ) :
    (sealedPacket c ks seq ts ssrc est body).length = rtpHeaderLen + body.length + gcmTagLen := by
  simp [sealedPacket, c.length_gcmSeal, gcmTagLen, add_assoc]

variable (ts body) in
theorem SrtpStream.protect_rtpHeader {w : ℕ} (c : Crypto) {s : SrtpStream w} (ks : KeySalt)
    (hssrc : ssrc = s.ssrc) (hlt : ssrc < 2 ^ 32)
    (hcheck : s.rdbx.check (s.rdbx.estimateIndex (seq % 2 ^ 16)).2 = .ok ()) :
    s.protect c ks (rtpHeader seq ts ssrc ++ body) =
      if 2 ^ 31 ≤ rtpHeaderLen + body.length + gcmTagLen then (.error .badParam, s)
      else if s.keyLimitUpdate.numLeft < 1 then (.error .keyExpired, s.keyLimitUpdate)
      else (.ok (sealedPacket c ks seq ts ssrc (s.rdbx.estimateIndex (seq % 2 ^ 16)).1 body),
        { s.keyLimitUpdate with
          rdbx := s.rdbx.addIndex (s.rdbx.estimateIndex (seq % 2 ^ 16)).2 }) := by
  have hof : ssrcOf (rtpHeader seq ts ssrc ++ body) = ssrc := by
    rw [ssrcOf_rtpHeader, Nat.mod_eq_of_lt hlt]
  unfold protect protectAead
  simp only [List.length_append, length_rtpHeader, validateRtpHeader_rtpHeader, hof, ← hssrc, ne_eq,
    not_true_eq_false, if_false, encStart_rtpHeader, keyLimitUpdate_rdbx, seqOf_rtpHeader, hcheck,
    take_rtpHeader, drop_rtpHeader, sealedPacket]
  rw [if_neg (show ¬ rtpHeaderLen + body.length < rtpHeaderLen by omega)]

end Header

/-! ## The generations of the sender -/

namespace StreamModel

variable {m : StreamModel} {granularity : Granularity}

theorem timestamp_eq_iff (m : StreamModel) (i : ℕ) :
    m.timestamp (i + 1) = m.timestamp i ↔
      (i + 1) / m.packetsPerFrame = i / m.packetsPerFrame := by
  have hstep := Nat.succ_div (a := i) (b := m.packetsPerFrame)
  unfold timestamp startTs framePeriod
  split_ifs at hstep <;> omega

theorem generation_succ (m : StreamModel) (granularity : Granularity) (i : ℕ) :
    m.generation granularity (i + 1) = m.generation granularity i ∨
      m.generation granularity (i + 1) = m.generation granularity i + 1 := by
  cases granularity with
  | epochOnly => exact .inl rfl
  | packet => exact .inr rfl
  | frame =>
    have hstep := Nat.succ_div (a := i) (b := m.packetsPerFrame)
    simp only [generation]
    split_ifs at hstep <;> omega
  | everyN n =>
    have hstep := Nat.succ_div (a := i) (b := n)
    simp only [generation]
    split_ifs at hstep <;> omega

/-- The bytes of packet `i` on the wire: sealed under the key of its generation, with the
packet's own number in the nonce. -/
def protectedPacket (c : Crypto) (m : StreamModel) (granularity : Granularity)
    (start : StreamRatchet) (i : ℕ) : Bytes :=
  sealedPacket c (start.keyAt c (m.generation granularity i)) i (m.timestamp i) m.ssrc.toNat i
    (m.payload i)

theorem length_payload (m : StreamModel) (i : ℕ) : (m.payload i).length = m.payloadSize := by
  have := m.payloadSize_ge
  simp only [payload, List.length_append, Bytes.length_toLe, List.length_replicate]
  omega

end StreamModel

namespace SimulatedSender

variable {c : Crypto} {m : StreamModel} {granularity : Granularity} {start : StreamRatchet}
  {k : ℕ} {s s' : SimulatedSender}

/-- The sender after `k` packets: the key of the last packet's generation is installed, and
the replay database stands at the last packet. -/
structure Produced (c : Crypto) (m : StreamModel) (granularity : Granularity)
    (start : StreamRatchet) (k : ℕ) (s : SimulatedSender) : Prop where
  model : s.model = m
  nextI : s.nextI = k
  keying : s.crypto.granularity = granularity
  ratchet : s.crypto.ratchet = start.moveTo c (m.generation granularity (k - 1) + 1)
  key : s.crypto.session.keySalt = start.keyAt c (m.generation granularity (k - 1))
  started : s.crypto.started = decide (0 < k)
  lastTs : 0 < k → s.crypto.lastTs = some (m.timestamp (k - 1))
  count : s.crypto.packetCount = k
  ssrc : s.crypto.session.stream.ssrc = m.ssrc.toNat
  index : s.crypto.session.stream.rdbx.index = k - 1
  fresh : k = 0 → s.crypto.session.stream.rdbx = Rdbx.init _
  left : s.crypto.session.stream.numLeft + k = keyUsageLimit

theorem produced_new {throwaway : KeySalt} (hstart : start.generation = 0)
    (h : new c throwaway m granularity start = .ok s) : Produced c m granularity start 0 s := by
  have hmove : start.nextKeySalt c = ((0, start.keyAt c 0), start.moveTo c 1) := by
    have := StreamRatchet.nextKeySalt_moveTo (c := c) (r := start) (g := 0) (by omega)
    rwa [← hstart, StreamRatchet.moveTo_self, hstart] at this
  have hgen : m.generation granularity 0 = 0 := by
    cases granularity <;> simp [StreamModel.generation]
  unfold new RekeyingStream.new SrtpStream.addStream senderWindowSize at h
  simp only [RekeyingStream.installNextGeneration, hmove] at h
  cases h
  refine ⟨rfl, rfl, rfl, ?_, ?_, rfl, nofun, rfl, rfl, rfl, fun _ => rfl, rfl⟩
  · simp [hgen]
  · simp [hgen, Session.inplaceRekey]

theorem Produced.crossedBoundary (h : Produced c m granularity start k s)
    (hg : granularity.Valid) :
    s.crypto.crossedBoundary (m.timestamp k) =
      .ok (decide (m.generation granularity k ≠ m.generation granularity (k - 1))) := by
  unfold RekeyingStream.crossedBoundary
  rw [h.keying, h.started, h.count]
  cases k with
  | zero => cases granularity <;> simp
  | succ k =>
    rw [h.lastTs (Nat.succ_pos k)]
    cases granularity with
    | epochOnly => simp [StreamModel.generation]
    | packet => simp [StreamModel.generation]
    | frame =>
      have hts := m.timestamp_eq_iff k
      simp only [Nat.add_sub_cancel, StreamModel.generation, ne_eq, ← hts]
      by_cases heq : m.timestamp (k + 1) = m.timestamp k
      · simp [heq]
      · simp [heq, Ne.symm heq]
    | everyN n =>
      have hstep := Nat.succ_div (a := k) (b := n)
      have hn : n ≠ 0 := Nat.one_le_iff_ne_zero.mp hg
      have hiff : (k + 1) % n = 0 ↔ (k + 1) / n ≠ k / n := by
        rw [← Nat.dvd_iff_mod_eq_zero, hstep]
        split_ifs with hdvd <;> simp [hdvd]
      simp [StreamModel.generation, hn, ← hiff, beq_eq_decide]

theorem Produced.advanceFor (h : Produced c m granularity start k s) (hg : granularity.Valid)
    (hstart : start.generation = 0) :
    ∃ installedGen, s.crypto.advanceFor c (m.timestamp k) = .ok { s.crypto with
      session := ⟨start.keyAt c (m.generation granularity k), s.crypto.session.stream⟩
      ratchet := start.moveTo c (m.generation granularity k + 1)
      installedGen := installedGen
      lastTs := some (m.timestamp k)
      started := true
      packetCount := k + 1 } := by
  unfold RekeyingStream.advanceFor
  rw [h.crossedBoundary hg]
  dsimp only
  by_cases hsame : m.generation granularity k = m.generation granularity (k - 1)
  · refine ⟨s.crypto.installedGen, ?_⟩
    simp [hsame, ← h.key, ← h.ratchet, h.count]
  · have hnext : m.generation granularity k = m.generation granularity (k - 1) + 1 := by
      cases k with
      | zero => exact absurd rfl hsame
      | succ k => exact (m.generation_succ granularity k).resolve_left hsame
    have hkey := StreamRatchet.nextKeySalt_moveTo (c := c) (r := start)
      (g := m.generation granularity (k - 1) + 1) (by omega)
    refine ⟨m.generation granularity k, ?_⟩
    simp [hnext, RekeyingStream.installNextGeneration, h.ratchet, hkey, h.count,
      Session.inplaceRekey]

theorem Produced.estimateIndex (h : Produced c m granularity start k s) (hk : k < 2 ^ 48) :
    s.crypto.session.stream.rdbx.estimateIndex (k % 2 ^ 16) =
        (k, (k : ℤ) - s.crypto.session.stream.rdbx.index) ∧
      s.crypto.session.stream.rdbx.check ((k : ℤ) - s.crypto.session.stream.rdbx.index) =
        .ok () := by
  have hposition : s.crypto.session.stream.rdbx.position (k % 2 ^ 16) = k ∧
      s.crypto.session.stream.rdbx.check ((k : ℤ) - s.crypto.session.stream.rdbx.index) =
        .ok () := by
    rcases Nat.eq_zero_or_pos k with rfl | hpos
    · rw [h.fresh rfl]
      exact ⟨Rdbx.position_init _ (by decide), (Rdbx.records_init _).check_ok (by decide) (by simp)⟩
    · have hindex := h.index
      refine ⟨Rdbx.position_of_near _ (abs_lt.mpr ⟨by omega, by omega⟩), ?_⟩
      rw [Rdbx.check, if_pos (by omega)]
  refine ⟨?_, hposition.2⟩
  rw [Rdbx.estimateIndex_eq _ (Nat.mod_lt _ (by decide)), hposition.1, Nat.mod_eq_of_lt hk]

/-- The next packet is number `k`, sealed under the key of its generation; it is produced
unless the packet is too long or the key usage limit is reached. -/
theorem Produced.nextProtected (h : Produced c m granularity start k s) (hg : granularity.Valid)
    (hstart : start.generation = 0) (hk : k < 2 ^ 48 - 1) :
    if rtpHeaderLen + m.payloadSize + gcmTagLen < 2 ^ 31 ∧ k + 2 < 2 ^ 48 then
      ∃ s', s.nextProtected c = .ok ((k, m.protectedPacket c granularity start k), s') ∧
        Produced c m granularity start (k + 1) s'
    else ∃ p, s.nextProtected c = .error p := by
  obtain ⟨installedGen, hadvance⟩ := h.advanceFor hg hstart
  obtain ⟨hest, hcheck⟩ := h.estimateIndex (by omega)
  have hts : m.timestamp k % 2 ^ 32 = m.timestamp k := Nat.mod_mod _ _
  have hleft := h.left
  have hprotect := SrtpStream.protect_rtpHeader (m.timestamp k) (m.payload k) c
    (start.keyAt c (m.generation granularity k)) h.ssrc.symm m.ssrc.toNat_lt
    (by rw [hest]; exact hcheck)
  unfold SimulatedSender.nextProtected RekeyingStream.protect
  rw [h.model, h.nextI]
  simp only [StreamModel.plainPacket, StreamModel.header, List.length_append, length_rtpHeader,
    timestampOf_rtpHeader, hts, hadvance, hprotect, m.length_payload,
    if_neg (show ¬ rtpHeaderLen + m.payloadSize < rtpHeaderLen by omega)]
  have hnum : s.crypto.session.stream.keyLimitUpdate.numLeft + (k + 1) = 2 ^ 48 - 1 := by
    unfold keyUsageLimit at hleft
    rw [SrtpStream.keyLimitUpdate, if_neg (by omega)]
    dsimp only
    omega
  -- a packet is not produced if it is too long for the `srtp` crate or the key is used up
  by_cases hlong : 2 ^ 31 ≤ rtpHeaderLen + m.payloadSize + gcmTagLen
  · rw [if_neg (by omega)]
    simp only [if_pos hlong]
    exact ⟨_, rfl⟩
  by_cases hlimit : s.crypto.session.stream.keyLimitUpdate.numLeft < 1
  · rw [if_neg (by omega)]
    simp only [if_neg hlong, if_pos hlimit]
    exact ⟨_, rfl⟩
  rw [if_pos (by omega)]
  simp only [if_neg hlong, if_neg hlimit, hest]
  refine ⟨_, rfl, rfl, rfl, h.keying, rfl, rfl, by simp, fun _ => rfl, rfl, h.ssrc, ?_, nofun, hnum⟩
  have hindex := h.index
  have hadd := s.crypto.session.stream.rdbx.addIndex_index (i := k) (by omega) (by omega)
  exact hadd.trans (by omega)

theorem Produced.run (hg : granularity.Valid) (hstart : start.generation = 0) {n : ℕ}
    {outs : List (ℕ × Bytes)} (h : Produced c m granularity start k s) (hn : k + n < 2 ^ 48)
    (hrun : run (fun s (_ : Unit) => s.nextProtected c) s (List.replicate n ()) = .ok (outs, s')) :
    outs = (List.range' k n).map (fun i => (i, m.protectedPacket c granularity start i)) ∧
      (0 < n → rtpHeaderLen + m.payloadSize + gcmTagLen < 2 ^ 31 ∧ k + n + 1 < 2 ^ 48) := by
  induction n generalizing k s outs with
  | zero =>
    cases hrun
    exact ⟨rfl, nofun⟩
  | succ n ih =>
    obtain ⟨out, t, outs', hstep, hrest, rfl⟩ := run_cons_ok_iff.mp hrun
    have hnext := h.nextProtected hg hstart (by omega)
    split_ifs at hnext with hfit
    · obtain ⟨t', ht', hproduced⟩ := hnext
      obtain ⟨rfl, rfl⟩ := Prod.mk.inj (Except.ok.inj (ht'.symm.trans hstep))
      obtain ⟨houts, hlimit⟩ := ih hproduced (by omega) hrest
      refine ⟨by rw [houts, List.range'_succ, List.map_cons], ?_⟩
      intro _
      refine ⟨hfit.1, ?_⟩
      rcases Nat.eq_zero_or_pos n with rfl | hpos
      · omega
      · have := (hlimit hpos).2
        omega
    · obtain ⟨p, hp⟩ := hnext
      rw [hp] at hstep
      cases hstep

theorem run_nextProtected {throwaway : KeySalt} {n : ℕ} {outs : List (ℕ × Bytes)}
    (hg : granularity.Valid) (hstart : start.generation = 0) (hn : n < 2 ^ 48)
    (hnew : new c throwaway m granularity start = .ok s)
    (hrun : run (fun s (_ : Unit) => s.nextProtected c) s (List.replicate n ()) = .ok (outs, s')) :
    outs = (List.range n).map (fun i => (i, m.protectedPacket c granularity start i)) ∧
      (0 < n → rtpHeaderLen + m.payloadSize + gcmTagLen < 2 ^ 31 ∧ n + 1 < 2 ^ 48) := by
  have hrun' := (produced_new hstart hnew).run hg hstart (by omega) hrun
  rwa [← List.range_eq_range', Nat.zero_add] at hrun'

theorem lt_of_run_nextProtected {throwaway : KeySalt} {n : ℕ} {outs : List (ℕ × Bytes)}
    (hg : granularity.Valid) (hstart : start.generation = 0)
    (hnew : new c throwaway m granularity start = .ok s)
    (hrun : run (fun s (_ : Unit) => s.nextProtected c) s (List.replicate n ()) = .ok (outs, s')) :
    n < 2 ^ 48 := by
  by_contra hn
  -- the sender does not survive the first `2 ^ 48 - 1` packets
  obtain ⟨k, hk⟩ : ∃ k, k + 1 = 2 ^ 48 := ⟨2 ^ 48 - 1, by decide⟩
  obtain ⟨d, rfl⟩ := Nat.exists_eq_add_of_le (show k ≤ n by omega)
  rw [← List.replicate_append_replicate, run_append] at hrun
  cases hfirst : run (fun s (_ : Unit) => s.nextProtected c) s (List.replicate k ()) with
  | error p =>
    rw [hfirst] at hrun
    cases hrun
  | ok r =>
    obtain ⟨-, hlimit⟩ := run_nextProtected hg hstart (by omega) hnew hfirst
    have := (hlimit (by omega)).2
    omega

theorem exists_run_nextProtected {throwaway : KeySalt} {n : ℕ} (hg : granularity.Valid)
    (hstart : start.generation = 0) (hn : n + 1 < 2 ^ 48)
    (hlen : rtpHeaderLen + m.payloadSize + gcmTagLen < 2 ^ 31)
    (hnew : new c throwaway m granularity start = .ok s) :
    ∃ outs s', run (fun s (_ : Unit) => s.nextProtected c) s (List.replicate n ()) =
      .ok (outs, s') := by
  suffices hall : ∀ k s, Produced c m granularity start k s → k + n + 1 < 2 ^ 48 →
      ∃ outs s', run (fun s (_ : Unit) => s.nextProtected c) s (List.replicate n ()) =
        .ok (outs, s') from hall 0 s (produced_new hstart hnew) (by omega)
  clear hn hnew
  induction n with
  | zero => exact fun k s _ _ => ⟨[], s, rfl⟩
  | succ n ih =>
    intro k s h hk
    have hnext := h.nextProtected hg hstart (by omega)
    rw [if_pos ⟨hlen, by omega⟩] at hnext
    obtain ⟨t, hstep, ht⟩ := hnext
    obtain ⟨outs, s', hrun⟩ := ih (k + 1) t ht (by omega)
    exact ⟨_, s', run_cons_ok_iff.mpr ⟨_, t, outs, hstep, hrun, rfl⟩⟩

end SimulatedSender

end SafeCast
