import SafeCast.Keying.Nonces

/-! # The rekeying stream in lockstep

Sender and receiver of a `RekeyingStream` start in one state and apply one rule to the
packets they see. If every packet arrives in order, the receiver goes through the states
of the sender and gives back every packet, at every granularity.
-/

namespace SafeCast

open Runs

/-! ## The header of a packet whose body changes -/

section Header

variable {h body : Bytes}

theorem csrcCount_append (hpos : 0 < h.length) : csrcCount (h ++ body) = csrcCount h := by
  rw [csrcCount, csrcCount, List.getD_append _ _ _ _ hpos]

theorem hasExtension_append (hpos : 0 < h.length) :
    hasExtension (h ++ body) = hasExtension h := by
  rw [hasExtension, hasExtension, List.getD_append _ _ _ _ hpos]

theorem rtpHdrLen_append (hpos : 0 < h.length) : rtpHdrLen (h ++ body) = rtpHdrLen h := by
  rw [rtpHdrLen, rtpHdrLen, csrcCount_append hpos]

theorem take_drop_append {i n : ℕ} (hle : i + n ≤ h.length) :
    ((h ++ body).drop i).take n = (h.drop i).take n := by
  rw [List.drop_append_of_le_length (by omega), List.take_append_of_le_length]
  rw [List.length_drop]
  omega

theorem rtpHdrXtndLen_append (hpos : 0 < h.length) (hle : rtpHdrLen h + 4 ≤ h.length) :
    rtpHdrXtndLen (h ++ body) = rtpHdrXtndLen h := by
  rw [rtpHdrXtndLen, rtpHdrXtndLen, rtpHdrLen_append hpos, take_drop_append (by omega)]

variable (hlen : rtpHeaderLen ≤ h.length)

include hlen

theorem seqOf_append : seqOf (h ++ body) = seqOf h := by
  unfold rtpHeaderLen at hlen
  rw [seqOf, seqOf, take_drop_append (by omega)]

theorem timestampOf_append : timestampOf (h ++ body) = timestampOf h := by
  unfold rtpHeaderLen at hlen
  rw [timestampOf, timestampOf, take_drop_append (by omega)]

theorem ssrcOf_append : ssrcOf (h ++ body) = ssrcOf h := by
  unfold rtpHeaderLen at hlen
  rw [ssrcOf, ssrcOf, take_drop_append (by omega)]

end Header

section Valid

variable {packet : Bytes}

theorem rtpHeaderLen_le_encStart (packet : Bytes) : rtpHeaderLen ≤ encStart packet := by
  unfold encStart rtpHdrLen
  split_ifs <;> omega

theorem validateRtpHeader_ok_iff :
    validateRtpHeader packet = .ok () ↔ encStart packet ≤ packet.length := by
  have hfixed : rtpHeaderLen ≤ rtpHdrLen packet := Nat.le_add_right _ _
  have hxtnd : 4 ≤ rtpHdrXtndLen packet := by
    unfold rtpHdrXtndLen
    omega
  unfold validateRtpHeader encStart
  split_ifs <;> simp only [false_iff, true_iff] <;> omega

theorem length_take_encStart (hvalid : validateRtpHeader packet = .ok ()) :
    (packet.take (encStart packet)).length = encStart packet := by
  rw [List.length_take, min_eq_left (validateRtpHeader_ok_iff.mp hvalid)]

theorem header_append (hvalid : validateRtpHeader packet = .ok ()) (body : Bytes) :
    encStart (packet.take (encStart packet) ++ body) = encStart packet ∧
      validateRtpHeader (packet.take (encStart packet) ++ body) = .ok () := by
  have hlen := length_take_encStart hvalid
  have hfixed := rtpHeaderLen_le_encStart packet
  unfold rtpHeaderLen at hfixed
  have hsplit := List.take_append_drop (encStart packet) packet
  generalize hh : packet.take (encStart packet) = h at *
  have hpos : 0 < h.length := by omega
  have hhdr : rtpHdrLen h = rtpHdrLen packet := by rw [← rtpHdrLen_append hpos, hsplit]
  have hext : hasExtension h = hasExtension packet := by rw [← hasExtension_append hpos, hsplit]
  have hxtnd : hasExtension packet = true → rtpHdrXtndLen h = rtpHdrXtndLen packet ∧
      rtpHdrLen h + 4 ≤ h.length := by
    intro he
    have hroom : rtpHdrLen h + 4 ≤ h.length := by
      rw [hlen, hhdr, encStart, if_pos he]
      unfold rtpHdrXtndLen
      omega
    exact ⟨by rw [← rtpHdrXtndLen_append hpos hroom, hsplit], hroom⟩
  have hstart : encStart (h ++ body) = encStart packet := by
    unfold encStart
    rw [hasExtension_append hpos, rtpHdrLen_append hpos, hext, hhdr]
    by_cases he : hasExtension packet = true
    · rw [if_pos he, if_pos he, rtpHdrXtndLen_append hpos (hxtnd he).2, (hxtnd he).1]
    · rw [if_neg he, if_neg he]
  refine ⟨hstart, validateRtpHeader_ok_iff.mpr ?_⟩
  rw [hstart, List.length_append, hlen]
  exact Nat.le_add_right _ _

theorem fields_append (hvalid : validateRtpHeader packet = .ok ()) (body : Bytes) :
    seqOf (packet.take (encStart packet) ++ body) = seqOf packet ∧
      timestampOf (packet.take (encStart packet) ++ body) = timestampOf packet ∧
      ssrcOf (packet.take (encStart packet) ++ body) = ssrcOf packet := by
  have hlen : rtpHeaderLen ≤ (packet.take (encStart packet)).length := by
    rw [length_take_encStart hvalid]
    exact rtpHeaderLen_le_encStart packet
  have hsplit := List.take_append_drop (encStart packet) packet
  generalize packet.take (encStart packet) = h at hlen hsplit ⊢
  rw [← hsplit]
  exact ⟨(seqOf_append hlen).trans (seqOf_append hlen).symm,
    (timestampOf_append hlen).trans (timestampOf_append hlen).symm,
    (ssrcOf_append hlen).trans (ssrcOf_append hlen).symm⟩

end Valid

/-! ## One packet -/

namespace SrtpStream

variable {w : ℕ} {c : Crypto} {s s' : SrtpStream w} {ks : KeySalt} {packet out : Bytes}

theorem protect_ok (h : s.protect c ks packet = (.ok out, s')) :
    packet.length + gcmTagLen < 2 ^ 31 ∧ validateRtpHeader packet = .ok () ∧
      ssrcOf packet = s.ssrc ∧ ¬ s.keyLimitUpdate.numLeft < 1 := by
  unfold protect at h
  split at h
  · cases h
  rename_i hlen
  split at h
  · cases h
  rename_i hvalid
  split at h
  · cases h
  rename_i hssrc
  unfold protectAead at h
  dsimp only at h
  split at h
  · cases h
  rename_i hleft
  exact ⟨not_le.mp hlen, hvalid, not_not.mp hssrc, hleft⟩

/-- A protected packet has the header of the packet and room for the tag. -/
structure ProtectedAs (s : SrtpStream w) (packet out : Bytes) : Prop where
  valid : validateRtpHeader out = .ok ()
  ssrc : ssrcOf out = s.ssrc
  seq : seqOf out = seqOf packet
  timestamp : timestampOf out = timestampOf packet
  length : out.length = packet.length + gcmTagLen
  length_lt : out.length < 2 ^ 31

theorem protectedAs_of_protect (h : s.protect c ks packet = (.ok out, s')) :
    ProtectedAs s packet out := by
  obtain ⟨hlen, hvalid, hssrc, -⟩ := protect_ok h
  rcases protect_cases h with ⟨hout, -, -⟩ | ⟨e, herr, -⟩
  · obtain rfl := Except.ok.inj hout
    have hsealed := c.length_gcmSeal (splitKeySalt ks).1 (s.nonce ks packet)
      (packet.take (encStart packet)) (packet.drop (encStart packet))
    generalize c.gcmSeal (splitKeySalt ks).1 (s.nonce ks packet) (packet.take (encStart packet))
      (packet.drop (encStart packet)) = body at hsealed ⊢
    obtain ⟨-, hvalid'⟩ := header_append hvalid body
    obtain ⟨hseq, hts, hssrc'⟩ := fields_append hvalid body
    have hle := validateRtpHeader_ok_iff.mp hvalid
    have hlength : (packet.take (encStart packet) ++ body).length = packet.length + gcmTagLen := by
      rw [List.length_append, length_take_encStart hvalid, hsealed, List.length_drop]
      unfold gcmTagLen
      omega
    exact ⟨hvalid', hssrc'.trans hssrc, hseq, hts, hlength, by omega⟩
  · cases herr

theorem unprotect_protected {t : SrtpStream w} {δ : ℤ}
    (h : s.protect c ks packet = (.ok out, s')) (hssrc : t.ssrc = s.ssrc)
    (hest : t.rdbx.estimateIndex (seqOf packet) = ((s.rdbx.estimateIndex (seqOf packet)).1, δ))
    (hcheck : t.rdbx.check δ = .ok ()) (hleft : ¬ t.keyLimitUpdate.numLeft < 1) :
    t.unprotect c ks out = (.ok packet, { t.keyLimitUpdate with rdbx := t.rdbx.addIndex δ }) := by
  have hout := protectedAs_of_protect h
  obtain ⟨-, hvalid, hown, -⟩ := protect_ok h
  rw [unprotect_of_check hout.length_lt hout.valid (hout.ssrc.trans hssrc.symm)
    (by rw [hout.seq]; exact hest) hcheck]
  have hlength := hout.length
  have hlt := hout.length_lt
  have hssrc' := hout.ssrc
  have hle := validateRtpHeader_ok_iff.mp hvalid
  rcases protect_cases h with ⟨hsealed, -, -⟩ | ⟨e, herr, -⟩
  · obtain rfl := Except.ok.inj hsealed
    have hopen := c.gcmOpen_gcmSeal (splitKeySalt ks).1 (s.nonce ks packet)
      (packet.take (encStart packet)) (packet.drop (encStart packet))
    generalize c.gcmSeal (splitKeySalt ks).1 (s.nonce ks packet) (packet.take (encStart packet))
      (packet.drop (encStart packet)) = body at *
    have hstart := (header_append hvalid body).1
    have htake := length_take_encStart hvalid
    rw [unprotectAead_long hlt (by omega), if_neg hleft, hstart, hssrc', ← hown,
      List.take_left' htake, List.drop_left' htake]
    unfold nonce at hopen
    rw [hopen]
    dsimp only
    rw [List.take_append_drop]
  · cases herr

/-- Unprotecting a protected packet in the state that protected it gives back the packet and
leads to the same next state. -/
theorem unprotect_of_protect (h : s.protect c ks packet = (.ok out, s')) :
    s.unprotect c ks out = (.ok packet, s') := by
  obtain ⟨-, -, -, hleft⟩ := protect_ok h
  rcases protect_cases h with ⟨-, hcheck, rfl⟩ | ⟨e, herr, -⟩
  · exact unprotect_protected h rfl Prod.mk.eta.symm hcheck hleft
  · cases herr

end SrtpStream

namespace RekeyingStream

variable {c : Crypto} {s s' : RekeyingStream} {packet out : Bytes}

theorem protect_advanced {res : Except SrtpError Bytes}
    (h : s.protect c packet = .ok (res, s')) :
    ∃ t, s.advanceFor c (timestampOf packet) = .ok t ∧
      t.session.stream.protect c t.session.keySalt packet = (res, s'.session.stream) ∧
      { t with session := { t.session with stream := s'.session.stream } } = s' := by
  unfold protect at h
  split at h
  · cases h
  split at h
  · cases h
  · rename_i t ht
    cases h
    exact ⟨t, ht, rfl, rfl⟩

theorem unprotect_advanced {t : RekeyingStream} {res : Except SrtpError Bytes}
    {stream : SrtpStream (windowBits senderWindowSize)} (hlen : rtpHeaderLen ≤ packet.length)
    (ht : s.advanceFor c (timestampOf packet) = .ok t)
    (hu : t.session.stream.unprotect c t.session.keySalt packet = (res, stream)) :
    s.unprotect c packet =
      .ok (res, { t with session := { t.session with stream := stream } }) := by
  unfold unprotect
  rw [if_neg (not_lt.mpr hlen), ht]
  dsimp only
  rw [hu]

theorem unprotect_of_protect (h : s.protect c packet = .ok (.ok out, s')) :
    s.unprotect c out = .ok (.ok packet, s') := by
  obtain ⟨t, ht, hprotect, hs'⟩ := protect_advanced h
  have hout := SrtpStream.protectedAs_of_protect hprotect
  have hlen : rtpHeaderLen ≤ out.length :=
    (rtpHeaderLen_le_encStart out).trans (validateRtpHeader_ok_iff.mp hout.valid)
  rw [unprotect_advanced hlen (by rw [hout.timestamp]; exact ht)
    (SrtpStream.unprotect_of_protect hprotect), hs']

/-- The throwaway key is overwritten before the first packet. -/
theorem new_congr (c : Crypto) (throwaway throwaway' : KeySalt) (granularity : Granularity)
    (ssrc : ℕ) (ratchet : StreamRatchet) :
    new c throwaway granularity ssrc ratchet = new c throwaway' granularity ssrc ratchet := by
  unfold new
  cases SrtpStream.addStream ssrc senderWindowSize <;> rfl

/-- If every packet was protected, and the datagrams are delivered in order and without loss,
every packet comes back, whatever the packets are, and both ends are in one state at the
end. -/
theorem in_order_round_trip (c : Crypto) (throwaway throwaway' : KeySalt)
    (granularity : Granularity) (ssrc : ℕ) (ratchet : StreamRatchet) {s₀ t₀ : RekeyingStream}
    {packets : List Bytes} {outs : List (Except SrtpError Bytes)}
    (hs : new c throwaway granularity ssrc ratchet = .ok s₀)
    (ht : new c throwaway' granularity ssrc ratchet = .ok t₀)
    (hrun : run (protect c) s₀ packets = .ok (outs, s)) (hok : outs.all Except.isOk = true) :
    run (unprotect c) t₀ (outs.filterMap Except.toOption) = .ok (packets.map .ok, s) := by
  rw [new_congr c throwaway throwaway', ht] at hs
  obtain rfl := Except.ok.inj hs
  clear hs ht
  induction packets generalizing t₀ outs with
  | nil =>
    obtain ⟨rfl, rfl⟩ := Prod.mk.inj (Except.ok.inj hrun)
    rfl
  | cons packet packets ih =>
    obtain ⟨o, s₁, os, hstep, hrest, rfl⟩ := run_cons_ok_iff.mp hrun
    cases o with
    | error e => cases hok
    | ok out =>
      change run (unprotect c) t₀ (out :: os.filterMap Except.toOption) = _
      exact run_cons_ok_iff.mpr ⟨_, s₁, _, unprotect_of_protect hstep, ih hok hrest, rfl⟩

theorem in_order_round_trip_three :
    ∃ s₀ outs s, run (protect Crypto.toy) s₀ [toyPacket 0 1, toyPacket 1 1, toyPacket 2 1] =
        .ok (outs, s) ∧ s.installedGen = 2 ∧
      run (unprotect Crypto.toy) s₀ (outs.filterMap Except.toOption) =
        .ok ([toyPacket 0 1, toyPacket 1 1, toyPacket 2 1].map .ok, s) := by
  obtain ⟨s₀, h₀⟩ : ∃ s₀, new Crypto.toy (ByteArr.replicate _ 0) .packet 7
    ⟨ByteArr.replicate _ 0, 0⟩ = .ok s₀ := ⟨_, rfl⟩
  obtain ⟨outs, s, hrun, hq⟩ := exists_of_returns
    (x := run (protect Crypto.toy) s₀ [toyPacket 0 1, toyPacket 1 1, toyPacket 2 1])
    (q := fun outs s => outs.all Except.isOk && s.installedGen == 2) (by cases h₀; decide +kernel)
  obtain ⟨hok, hgen⟩ := Bool.and_eq_true_iff.mp hq
  exact ⟨s₀, outs, s, hrun, beq_iff_eq.mp hgen,
    in_order_round_trip Crypto.toy _ _ _ _ _ h₀ h₀ hrun hok⟩

end RekeyingStream

end SafeCast
