import SafeCast.Srtp.Session

/-! # RTP packets

The client builds packets with the fixed header and reads them back after decryption.
-/

namespace SafeCast

structure RtpPacket where
  payloadType : UInt8
  sequenceNumber : UInt16
  timestamp : UInt32
  ssrc : UInt32
  payload : Bytes
  deriving DecidableEq, Repr

namespace RtpPacket

def toBytes (p : RtpPacket) : Bytes :=
  [0x80, p.payloadType &&& 0x7F] ++ Bytes.toBe 2 p.sequenceNumber.toNat ++
    Bytes.toBe 4 p.timestamp.toNat ++ Bytes.toBe 4 p.ssrc.toNat ++ p.payload

/-- Neither the version nor the flags are looked at. -/
def fromBytes (data : Bytes) : Option RtpPacket :=
  if data.length < rtpHeaderLen then none
  else some
    { payloadType := data.getD 1 0 &&& 0x7F
      sequenceNumber := UInt16.ofNat (seqOf data)
      timestamp := UInt32.ofNat (timestampOf data)
      ssrc := UInt32.ofNat (ssrcOf data)
      payload := data.drop rtpHeaderLen }

variable (p : RtpPacket)

@[simp] theorem length_toBytes : p.toBytes.length = rtpHeaderLen + p.payload.length := by
  simp only [toBytes, rtpHeaderLen, List.length_append, List.length_cons, List.length_nil,
    Bytes.length_toBe]

@[simp] theorem seqOf_toBytes : seqOf p.toBytes = p.sequenceNumber.toNat := by
  have := p.sequenceNumber.toNat_lt
  simp [seqOf, toBytes, Bytes.beNat_toBe]

@[simp] theorem timestampOf_toBytes : timestampOf p.toBytes = p.timestamp.toNat := by
  have := p.timestamp.toNat_lt
  simp [timestampOf, toBytes, Bytes.beNat_toBe]

@[simp] theorem ssrcOf_toBytes : ssrcOf p.toBytes = p.ssrc.toNat := by
  have := p.ssrc.toNat_lt
  rw [ssrcOf, toBytes, List.append_assoc _ (Bytes.toBe 4 _), List.drop_left' (by simp),
    List.take_left' (by simp), Bytes.beNat_toBe]
  norm_num

@[simp] theorem drop_toBytes : p.toBytes.drop rtpHeaderLen = p.payload :=
  List.drop_left' (by simp [rtpHeaderLen])

theorem fromBytes_toBytes :
    fromBytes p.toBytes = some { p with payloadType := p.payloadType &&& 0x7F } := by
  have htype : p.toBytes.getD 1 0 &&& 0x7F = p.payloadType &&& 0x7F := by
    simp [toBytes, UInt8.and_assoc]
  unfold fromBytes
  rw [if_neg (by simp), htype, seqOf_toBytes, timestampOf_toBytes, ssrcOf_toBytes, drop_toBytes]
  simp

variable {p} {data : Bytes}

/-- What is written back: the first byte and the marker bit are lost. -/
theorem toBytes_of_fromBytes (h : fromBytes data = some p) :
    p.toBytes = [0x80, data.getD 1 0 &&& 0x7F] ++ data.drop 2 := by
  unfold fromBytes at h
  split_ifs at h with hlen
  have hlen := not_lt.mp hlen
  unfold rtpHeaderLen at hlen
  cases h
  -- each field is read and written as the bytes it stands in
  have hfield : ∀ i n, i + n ≤ data.length →
      Bytes.toBe n (Bytes.beNat ((data.drop i).take n)) ++ data.drop (i + n) = data.drop i := by
    intro i n hle
    have hsize : ((data.drop i).take n).length = n := by
      rw [List.length_take, List.length_drop]
      omega
    have hbytes := Bytes.toBe_beNat ((data.drop i).take n)
    rw [hsize] at hbytes
    rw [hbytes, ← List.drop_drop, List.take_append_drop]
  have hseq : ∀ x, Bytes.toBe 2 (x % 2 ^ 16) = Bytes.toBe 2 x := fun x =>
    Bytes.toBe_congr (Nat.mod_mod x _)
  have hword : ∀ x, Bytes.toBe 4 (x % 2 ^ 32) = Bytes.toBe 4 x := fun x =>
    Bytes.toBe_congr (Nat.mod_mod x _)
  simp only [toBytes, UInt16.toNat_ofNat', UInt32.toNat_ofNat', hseq, hword, List.append_assoc,
    rtpHeaderLen, seqOf, timestampOf, ssrcOf]
  rw [hfield 8 4 (by omega), hfield 4 4 (by omega), hfield 2 2 (by omega)]
  simp [UInt8.and_assoc]

/-- Exactly the packets with a payload type of seven bits are read back, and exactly the
packets of version 2 without padding, extension, contributing sources and marker are written
back. -/
theorem rtp_round_trip :
    (∀ p, fromBytes (toBytes p) = some p ↔ p.payloadType &&& 0x7F = p.payloadType) ∧
      ∀ data, (∃ p, fromBytes data = some p ∧ p.toBytes = data) ↔
        rtpHeaderLen ≤ data.length ∧ data.getD 0 0 = 0x80 ∧
          data.getD 1 0 &&& 0x7F = data.getD 1 0 := by
  refine ⟨?_, ?_⟩
  · intro p
    rw [fromBytes_toBytes, Option.some.injEq]
    constructor
    · intro h
      exact congrArg payloadType h
    · intro h
      rw [h]
  · intro data
    constructor
    · rintro ⟨p, hread, hwrite⟩
      have hback := toBytes_of_fromBytes hread
      rw [hwrite] at hback
      have hlen : rtpHeaderLen ≤ data.length := by
        rw [← hwrite, length_toBytes]
        exact Nat.le_add_right _ _
      have hfirst := congrArg (List.getD · 0 0) hback
      have htype := congrArg (List.getD · 1 0) hback
      exact ⟨hlen, by simpa using hfirst, by simpa using htype.symm⟩
    · rintro ⟨hlen, hfirst, htype⟩
      have hread : ∃ p, fromBytes data = some p := by
        unfold fromBytes
        rw [if_neg (not_lt.mpr hlen)]
        exact ⟨_, rfl⟩
      obtain ⟨p, hp⟩ := hread
      refine ⟨p, hp, ?_⟩
      rw [toBytes_of_fromBytes hp, htype, ← hfirst]
      rcases data with - | ⟨a, - | ⟨b, rest⟩⟩
      · cases hlen
      · simp [rtpHeaderLen] at hlen
      · rfl

end RtpPacket

end SafeCast
