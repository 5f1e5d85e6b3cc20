import SafeCast.Keying.FrameAgreement
import SafeCast.Keying.Lockstep
import SafeCast.Simulation.EndToEnd

/-! # The rekeying stream under loss

A receiver with a `RekeyingStream` counts the packets or timestamp changes that it sees. When
packets are lost, it falls behind the sender, who counts those that were sent. A packet that
arrives in order decrypts exactly if both counts give one generation.
-/

namespace SafeCast

open Changes Runs

/-- The generation that a rekeying stream has installed after packets with the given
timestamps. -/
def Granularity.installed (granularity : Granularity) (stamps : List ℕ) : ℕ :=
  match granularity with
  | .epochOnly => 0
  | .frame => changes stamps
  | .packet => stamps.length - 1
  | .everyN n => (stamps.length - 1) / n

theorem Granularity.installed_le (granularity : Granularity) (stamps : List ℕ) :
    granularity.installed stamps ≤ stamps.length - 1 := by
  cases granularity with
  | epochOnly => exact Nat.zero_le _
  | frame => exact changes_le stamps
  | packet => exact le_rfl
  | everyN n => exact Nat.div_le_self _ _

namespace RekeyingStream

variable {c : Crypto} {start : StreamRatchet} {granularity : Granularity} {stamps : List ℕ}
  {s s' : RekeyingStream}

structure Keyed (c : Crypto) (start : StreamRatchet) (granularity : Granularity)
    (stamps : List ℕ) (s : RekeyingStream) : Prop where
  keying : s.granularity = granularity
  ratchet : s.ratchet = start.moveTo c (granularity.installed stamps + 1)
  key : s.session.keySalt = start.keyAt c (granularity.installed stamps)
  started : s.started = !stamps.isEmpty
  lastTs : s.lastTs = stamps.getLast?
  count : s.packetCount = stamps.length

theorem keyed_new {throwaway : KeySalt} {ssrc : ℕ} (hstart : start.generation = 0)
    (h : new c throwaway granularity ssrc start = .ok s) :
    Keyed c start granularity [] s ∧
      s.session.stream = ⟨ssrc, Rdbx.init _, keyUsageLimit⟩ := by
  have hmove : start.nextKeySalt c = ((0, start.keyAt c 0), start.moveTo c 1) := by
    have := StreamRatchet.nextKeySalt_moveTo (c := c) (r := start) (g := 0) (by omega)
    rwa [← hstart, StreamRatchet.moveTo_self, hstart] at this
  have hzero : granularity.installed [] = 0 := by
    cases granularity <;> simp [Granularity.installed, changes]
  unfold new SrtpStream.addStream senderWindowSize at h
  simp only [installNextGeneration, hmove] at h
  cases h
  exact ⟨⟨rfl, by rw [hzero], by rw [hzero]; rfl, rfl, rfl, rfl⟩, rfl⟩

theorem Keyed.crossedBoundary (h : Keyed c start granularity stamps s) (hg : granularity.Valid)
    (ts : ℕ) :
    ∃ crossed, s.crossedBoundary ts = .ok crossed ∧
      granularity.installed (stamps ++ [ts]) =
        granularity.installed stamps + if crossed then 1 else 0 := by
  unfold RekeyingStream.crossedBoundary
  rw [h.keying, h.started, h.lastTs, h.count]
  rcases List.eq_nil_or_concat' stamps with rfl | ⟨stamps, last, rfl⟩
  · refine ⟨false, ?_, ?_⟩ <;> cases granularity <;> simp [Granularity.installed, changes]
  · cases granularity with
    | epochOnly => exact ⟨false, rfl, rfl⟩
    | packet => exact ⟨true, by simp, by simp [Granularity.installed]⟩
    | frame =>
      refine ⟨decide (last ≠ ts), by simp [bne, beq_eq_decide], ?_⟩
      simp [Granularity.installed, changes_concat]
    | everyN n =>
      have hn : n ≠ 0 := Nat.one_le_iff_ne_zero.mp hg
      refine ⟨decide ((stamps.length + 1) % n = 0), by simp [hn, beq_eq_decide], ?_⟩
      have hstep := Nat.succ_div (a := stamps.length) (b := n)
      simp only [Granularity.installed, List.length_append, List.length_singleton,
        Nat.add_sub_cancel, hstep, Nat.dvd_iff_mod_eq_zero, decide_eq_true_eq]

theorem Keyed.advanceFor (h : Keyed c start granularity stamps s) (hg : granularity.Valid)
    (hstart : start.generation = 0) (ts : ℕ) :
    ∃ s', s.advanceFor c ts = .ok s' ∧ Keyed c start granularity (stamps ++ [ts]) s' := by
  obtain ⟨crossed, hcrossed, hnext⟩ := h.crossedBoundary hg ts
  unfold RekeyingStream.advanceFor
  rw [hcrossed]
  refine ⟨_, rfl, ?_⟩
  have hlast : (stamps ++ [ts]).getLast? = some ts := by simp
  have hcount : s.packetCount + 1 = (stamps ++ [ts]).length := by simp [h.count]
  cases crossed with
  | false =>
    rw [if_neg (by simp)] at hnext ⊢
    exact ⟨h.keying, by rw [hnext]; exact h.ratchet, by rw [hnext]; exact h.key, by simp,
      hlast.symm, hcount⟩
  | true =>
    have hkey := StreamRatchet.nextKeySalt_moveTo (c := c) (r := start)
      (g := granularity.installed stamps + 1) (by omega)
    rw [if_pos rfl] at hnext ⊢
    simp only [installNextGeneration, h.ratchet, hkey]
    exact ⟨h.keying, by rw [hnext], by rw [hnext]; rfl, by simp, hlast.symm, hcount⟩

end RekeyingStream

/-! ## Packets that arrive in order -/

namespace StreamModel

variable (m : StreamModel) (granularity : Granularity)

/-- What the receiver answers to packet `i` after the packets `heard`. -/
def outcome (heard : List ℕ) (i : ℕ) : Except SrtpError Bytes :=
  if granularity.installed ((heard ++ [i]).map m.timestamp) = m.generation granularity i then
    .ok (m.plainPacket i)
  else .error .authFail

/-- Among the first `n` generations, only its own opens a packet. -/
def KeySeparated (c : Crypto) (start : StreamRatchet) (n : ℕ) : Prop :=
  ∀ i < n, ∀ g < n, g ≠ m.generation granularity i →
    c.gcmOpen (splitKeySalt (start.keyAt c g)).1
      (calcAeadIv (splitKeySalt (start.keyAt c g)).2 m.ssrc.toNat i) (m.header i)
      ((m.protectedPacket c granularity start i).drop rtpHeaderLen) = none

end StreamModel

namespace Rdbx

variable {w i : ℕ} {r : Rdbx w}

theorem estimateIndex_of_ahead (hw : 0 < w) (hi : i < 2 ^ 16) (h : r = init w ∨ r.index < i) :
    r.estimateIndex (i % 2 ^ 16) = (i, (i : ℤ) - r.index) ∧
      r.check ((i : ℤ) - r.index) = .ok () := by
  have hposition : r.position (i % 2 ^ 16) = i := by
    rcases h with rfl | hlt
    · exact position_init w hi
    · rw [Nat.mod_eq_of_lt hi]
      unfold position SerialNumber.unwrap SerialNumber.delta
      split_ifs <;> omega
  refine ⟨?_, ?_⟩
  · rw [estimateIndex_eq _ (Nat.mod_lt _ (by decide)), hposition, Nat.mod_eq_of_lt (by omega)]
  · rcases h with rfl | hlt
    · exact (records_init w).check_ok (Nat.add_pos_right i hw) (by simp)
    · rw [check, if_pos (by omega)]

end Rdbx

theorem SrtpStream.unprotect_protectedPacket {c : Crypto} {m : StreamModel}
    {granularity : Granularity} {start : StreamRatchet} {w i g : ℕ} {s : SrtpStream w}
    (hw : 0 < w) (hssrc : m.ssrc.toNat = s.ssrc) (hleft : 1 < s.numLeft) (hi : i < 2 ^ 16)
    (hahead : s.rdbx = Rdbx.init w ∨ s.rdbx.index < i)
    (hlen : rtpHeaderLen + m.payloadSize + gcmTagLen < 2 ^ 31)
    (hsep : g ≠ m.generation granularity i →
      c.gcmOpen (splitKeySalt (start.keyAt c g)).1
        (calcAeadIv (splitKeySalt (start.keyAt c g)).2 m.ssrc.toNat i) (m.header i)
        ((m.protectedPacket c granularity start i).drop rtpHeaderLen) = none) :
    s.unprotect c (start.keyAt c g) (m.protectedPacket c granularity start i) =
      if g = m.generation granularity i then (.ok (m.plainPacket i),
        ⟨s.ssrc, s.rdbx.addIndex ((i : ℤ) - s.rdbx.index), s.numLeft - 1⟩)
      else (.error .authFail, { s with numLeft := s.numLeft - 1 }) := by
  obtain ⟨hest, hcheck⟩ := Rdbx.estimateIndex_of_ahead hw hi hahead
  split_ifs with hsame
  · subst hsame
    exact unprotect_sealedPacket c _ _ hssrc m.ssrc.toNat_lt (by rwa [m.length_payload]) hest hcheck
      hleft
  · have hopen := hsep hsame
    have hsealed := c.length_gcmSeal (splitKeySalt (start.keyAt c (m.generation granularity i))).1
      (calcAeadIv (splitKeySalt (start.keyAt c (m.generation granularity i))).2 m.ssrc.toNat i)
      (m.header i) (m.payload i)
    rw [m.length_payload] at hsealed
    unfold gcmTagLen at hlen
    unfold StreamModel.protectedPacket sealedPacket at hopen ⊢
    rw [drop_rtpHeader] at hopen
    unfold StreamModel.header at hopen hsealed
    rw [unprotect_rtpHeader c _ _ hssrc m.ssrc.toNat_lt (by omega) (by unfold gcmTagLen; omega)
      hleft, hest]
    simp only [hcheck, hopen]

namespace RekeyingStream

variable {c : Crypto} {m : StreamModel} {granularity : Granularity} {start : StreamRatchet}
  {heard : List ℕ} {i : ℕ} {s : RekeyingStream}

/-- A receiver after the packets `heard`. The replay database stands at one of them. -/
structure Listening (c : Crypto) (m : StreamModel) (granularity : Granularity)
    (start : StreamRatchet) (heard : List ℕ) (s : RekeyingStream) : Prop where
  keyed : Keyed c start granularity (heard.map m.timestamp) s
  ssrc : s.session.stream.ssrc = m.ssrc.toNat
  left : keyUsageLimit ≤ s.session.stream.numLeft + heard.length
  index : s.session.stream.rdbx = Rdbx.init _ ∨ s.session.stream.rdbx.index ∈ heard

theorem listening_new {throwaway : KeySalt} (hstart : start.generation = 0)
    (h : new c throwaway granularity m.ssrc.toNat start = .ok s) :
    Listening c m granularity start [] s := by
  obtain ⟨hkeyed, hstream⟩ := keyed_new hstart h
  exact ⟨hkeyed, by rw [hstream], by rw [hstream]; exact le_rfl, .inl (by rw [hstream])⟩

theorem Keyed.withStream {stamps : List ℕ} (h : Keyed c start granularity stamps s)
    (stream : SrtpStream (windowBits senderWindowSize)) :
    Keyed c start granularity stamps { s with session := { s.session with stream := stream } } :=
  ⟨h.keying, h.ratchet, h.key, h.started, h.lastTs, h.count⟩

/-- A packet ahead of all that were heard is answered by comparing two generations, its own
and the installed one. -/
theorem Listening.unprotect {g : ℕ} (hg : granularity.Valid) (hstart : start.generation = 0)
    (hlen : rtpHeaderLen + m.payloadSize + gcmTagLen < 2 ^ 31)
    (h : Listening c m granularity start heard s) (hi : i < 2 ^ 16) (hahead : ∀ j ∈ heard, j < i)
    (hcount : heard.length ≤ i)
    (hinstalled : granularity.installed ((heard ++ [i]).map m.timestamp) = g)
    (hsep : g ≠ m.generation granularity i →
      c.gcmOpen (splitKeySalt (start.keyAt c g)).1
        (calcAeadIv (splitKeySalt (start.keyAt c g)).2 m.ssrc.toNat i) (m.header i)
        ((m.protectedPacket c granularity start i).drop rtpHeaderLen) = none) :
    ∃ s', s.unprotect c (m.protectedPacket c granularity start i) =
        .ok (m.outcome granularity heard i, s') ∧
      Listening c m granularity start (heard ++ [i]) s' := by
  have hts : timestampOf (m.protectedPacket c granularity start i) = m.timestamp i := by
    rw [StreamModel.protectedPacket, sealedPacket, timestampOf_rtpHeader]
    exact Nat.mod_mod _ _
  obtain ⟨t, hadvance, hkeyed⟩ := h.keyed.advanceFor hg hstart (m.timestamp i)
  have hstream := advanceFor_stream hadvance
  rw [← hts] at hadvance
  rw [← List.map_singleton, ← List.map_append] at hkeyed
  have hkey : t.session.keySalt = start.keyAt c g := by rw [hkeyed.key, hinstalled]
  have hssrc : m.ssrc.toNat = t.session.stream.ssrc := by rw [hstream, h.ssrc]
  have hleft : 1 < t.session.stream.numLeft := by
    have := h.left
    rw [hstream]
    unfold keyUsageLimit at this
    omega
  have hindex : t.session.stream.rdbx = Rdbx.init _ ∨ t.session.stream.rdbx.index < i := by
    rw [hstream]
    exact h.index.imp_right (hahead _)
  have hroom : rtpHeaderLen ≤ (m.protectedPacket c granularity start i).length := by
    rw [StreamModel.protectedPacket, length_sealedPacket]
    omega
  have hopen := SrtpStream.unprotect_protectedPacket (windowBits_pos _) hssrc hleft hi hindex hlen
    hsep
  rw [← hkey] at hopen
  -- both answers use up one packet of the key; only the first moves the replay database
  have hnext : ∀ r : Rdbx _, r = t.session.stream.rdbx ∨ r.index = i →
      Listening c m granularity start (heard ++ [i]) { t with session := { t.session with
        stream := ⟨t.session.stream.ssrc, r, t.session.stream.numLeft - 1⟩ } } := by
    intro r hr
    refine ⟨hkeyed.withStream _, hssrc.symm, ?_, ?_⟩
    · have := h.left
      rw [← hstream] at this
      simp only [List.length_append, List.length_singleton]
      omega
    · rcases hr with rfl | hr
      · rw [hstream]
        exact h.index.imp_right (List.mem_append_left _)
      · exact .inr (by simp [hr])
  unfold StreamModel.outcome
  rw [hinstalled]
  split_ifs at hopen ⊢ with hsame
  · refine ⟨_, unprotect_advanced hroom hadvance hopen, hnext _ (.inr ?_)⟩
    have hle : t.session.stream.rdbx.index ≤ i := by
      rcases hindex with heq | hlt
      · rw [heq]
        exact Nat.zero_le i
      · exact hlt.le
    rw [Rdbx.addIndex_index _ (by omega) (by omega), max_eq_right hle]
  · exact ⟨_, unprotect_advanced hroom hadvance hopen, hnext _ (.inl rfl)⟩

theorem Listening.run (hg : granularity.Valid) (hstart : start.generation = 0)
    (hlen : rtpHeaderLen + m.payloadSize + gcmTagLen < 2 ^ 31) {n : ℕ} (hn : n ≤ 2 ^ 16)
    (hsep : m.KeySeparated granularity c start n) {arrivals : List ℕ}
    (h : Listening c m granularity start heard s)
    (hordered : (heard ++ arrivals).Pairwise (· < ·)) (hlt : ∀ i ∈ heard ++ arrivals, i < n) :
    ∃ s', run (RekeyingStream.unprotect c) s
        (arrivals.map (m.protectedPacket c granularity start)) =
      .ok (List.zipWith (fun pre i => m.outcome granularity (heard ++ pre) i) arrivals.inits
        arrivals, s') := by
  induction arrivals generalizing heard s with
  | nil => exact ⟨s, rfl⟩
  | cons i arrivals ih =>
    have happend : heard ++ i :: arrivals = heard ++ [i] ++ arrivals := by simp
    rw [happend] at hordered hlt
    have hi : i < n := hlt i (by simp)
    have hfirst := hordered.sublist (List.sublist_append_left _ _)
    have hahead : ∀ j ∈ heard, j < i := fun j hj => by
      simpa using (List.pairwise_append.mp hfirst).2.2 j hj
    have hcount : heard.length ≤ i :=
      RunningMax.length_le_of_lt (hfirst.sublist (List.sublist_append_left _ _)).nodup hahead
    have hinstalled := granularity.installed_le ((heard ++ [i]).map m.timestamp)
    simp only [List.length_map, List.length_append, List.length_singleton,
      Nat.add_sub_cancel] at hinstalled
    obtain ⟨s₁, hstep, h₁⟩ := h.unprotect hg hstart hlen (by omega) hahead hcount rfl
      (hsep i hi _ (by omega))
    obtain ⟨s', hrun⟩ := ih h₁ hordered hlt
    refine ⟨s', run_cons_ok_iff.mpr ⟨_, s₁, _, hstep, hrun, ?_⟩⟩
    simp [List.zipWith_map_left]

end RekeyingStream

/-- If packets of the stream are lost but none is overtaken, each one that arrives is decrypted
exactly if the generation that the receiver has counted is the packet's own; otherwise it does
not authenticate. -/
theorem lossy_packets_decrypt_iff (c : Crypto) (throwaway throwaway' : KeySalt) (m : StreamModel)
    (granularity : Granularity) (hg : granularity.Valid) (seed : ByteArr chainSecretLen) (n : ℕ)
    (hn : n ≤ 2 ^ 16) {s s' : SimulatedSender} {t₀ : RekeyingStream} {packets : List (ℕ × Bytes)}
    (hsender : SimulatedSender.new c throwaway m granularity ⟨seed, 0⟩ = .ok s)
    (hpackets : run (fun s (_ : Unit) => s.nextProtected c) s (List.replicate n ()) =
      .ok (packets, s'))
    (hreceiver : RekeyingStream.new c throwaway' granularity m.ssrc.toNat ⟨seed, 0⟩ = .ok t₀)
    (hsep : m.KeySeparated granularity c ⟨seed, 0⟩ n) (arrivals : List (ℕ × Bytes))
    (hlossy : arrivals.Sublist packets) :
    ∃ t, run (RekeyingStream.unprotect c) t₀ (arrivals.map Prod.snd) =
      .ok (List.zipWith (m.outcome granularity) (arrivals.map Prod.fst).inits
        (arrivals.map Prod.fst), t) := by
  obtain ⟨rfl, hlimit⟩ := SimulatedSender.run_nextProtected hg rfl (by omega) hsender hpackets
  obtain ⟨hlt, hbytes⟩ := StreamModel.map_snd_of_sent hlossy.subset
  have hfst : (arrivals.map Prod.fst).Sublist (List.range n) := by
    simpa [Function.comp_def] using hlossy.map Prod.fst
  rcases arrivals with - | ⟨a, arrivals⟩
  · exact ⟨t₀, rfl⟩
  obtain ⟨hlen, -⟩ := hlimit (Nat.zero_lt_of_lt (hlt a.1 (by simp)))
  obtain ⟨t, hrun⟩ := (RekeyingStream.listening_new rfl hreceiver).run hg rfl hlen hn hsep
    (List.pairwise_lt_range.sublist hfst) hlt
  exact ⟨t, hbytes ▸ hrun⟩

/-- Two packets to a generation, and packet 1 is lost: packet 2 comes under a key that the
receiver has not reached, and for packet 3 it has caught up. -/
theorem lossy_packets_decrypt_every_two :
    ∃ (m : StreamModel) (packet : ℕ → Bytes) (t₀ t : RekeyingStream),
      run (RekeyingStream.unprotect Crypto.toy) t₀ [packet 0, packet 2, packet 3] =
        .ok ([.ok (m.plainPacket 0), .error .authFail, .ok (m.plainPacket 3)], t) := by
  obtain ⟨m, hm⟩ : ∃ m, StreamModel.new 8 7 = .ok m := ⟨_, rfl⟩
  obtain ⟨s, hs⟩ : ∃ s, SimulatedSender.new Crypto.toy (ByteArr.replicate _ 0) m (.everyN 2)
    ⟨ByteArr.replicate _ 0, 0⟩ = .ok s := ⟨_, rfl⟩
  obtain ⟨t₀, ht₀⟩ : ∃ t₀, RekeyingStream.new Crypto.toy (ByteArr.replicate _ 0) (.everyN 2)
    m.ssrc.toNat ⟨ByteArr.replicate _ 0, 0⟩ = .ok t₀ := ⟨_, rfl⟩
  have hvalid : (Granularity.everyN 2).Valid := (by decide : 1 ≤ 2)
  obtain ⟨packets, s', hpackets⟩ := SimulatedSender.exists_run_nextProtected (n := 4) hvalid rfl
    (by decide) (by cases hm; decide) hs
  obtain ⟨rfl, -⟩ := SimulatedSender.run_nextProtected hvalid rfl (by decide) hs hpackets
  obtain ⟨t, hrun⟩ := lossy_packets_decrypt_iff Crypto.toy _ _ m (.everyN 2) hvalid _ 4 (by decide)
    hs hpackets ht₀ (by cases hm; unfold StreamModel.KeySeparated; decide +kernel)
    ([0, 2, 3].map fun i => (i, m.protectedPacket Crypto.toy (.everyN 2)
      ⟨ByteArr.replicate _ 0, 0⟩ i))
    (by refine List.Sublist.map _ ?_; decide)
  refine ⟨m, m.protectedPacket Crypto.toy (.everyN 2) ⟨ByteArr.replicate _ 0, 0⟩, t₀, t, ?_⟩
  simpa [StreamModel.outcome, Granularity.installed, StreamModel.generation] using hrun

end SafeCast
