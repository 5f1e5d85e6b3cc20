import SafeCast.Keying.Ratchet
import SafeCast.Srtp.Replay

/-! # SRTP sessions

A session is the key and salt loaded in the cipher and the state of its one stream.
The receiver only needs `SrtpOps`, what `unprotect` does to that state. `SrtpStream`
is libsrtp's AES-128-GCM stream: header validation, stream lookup, replay check,
length checks, key usage limit and decryption, in that order.
-/

namespace SafeCast

/-- What the receiver uses of an SRTP library with stream state `σ`. -/
structure SrtpOps (σ : Type*) where
  unprotect : σ → KeySalt → Bytes → Except SrtpError Bytes × σ
  /-- The session key expanded from the throwaway master key. -/
  throwaway : KeySalt

structure Session (σ : Type*) where
  keySalt : KeySalt
  stream : σ

namespace Session

variable {σ : Type*}

/-- Swap the key in the cipher; the stream state stays. -/
def inplaceRekey (s : Session σ) (ks : KeySalt) : Session σ := { s with keySalt := ks }

def unprotect (ops : SrtpOps σ) (s : Session σ) (packet : Bytes) :
    Except SrtpError Bytes × Session σ :=
  let r := ops.unprotect s.stream s.keySalt packet
  (r.1, { s with stream := r.2 })

end Session

/-! ## The RTP header -/

def csrcCount (packet : Bytes) : ℕ := (packet.getD 0 0).toNat % 16

def hasExtension (packet : Bytes) : Bool := (packet.getD 0 0).toNat / 16 % 2 = 1

/-- `srtp_get_rtp_hdr_len`: the fixed header and the contributing sources. -/
def rtpHdrLen (packet : Bytes) : ℕ := rtpHeaderLen + 4 * csrcCount packet

/-- `srtp_get_rtp_hdr_xtnd_len`: the header extension with its own header. -/
def rtpHdrXtndLen (packet : Bytes) : ℕ :=
  (Bytes.beNat ((packet.drop (rtpHdrLen packet + 2)).take 2) + 1) * 4

/-- `srtp_validate_rtp_header`. -/
def validateRtpHeader (packet : Bytes) : Except SrtpError Unit :=
  if packet.length < rtpHeaderLen then .error .badParam
  else if packet.length < rtpHdrLen packet then .error .badParam
  else if hasExtension packet then
    if packet.length < rtpHdrLen packet + 4 then .error .badParam
    else if packet.length < rtpHdrLen packet + rtpHdrXtndLen packet then .error .badParam
    else .ok ()
  else .ok ()

def encStart (packet : Bytes) : ℕ :=
  if hasExtension packet then rtpHdrLen packet + rtpHdrXtndLen packet else rtpHdrLen packet

theorem validateRtpHeader_error {packet : Bytes} {e : SrtpError}
    (h : validateRtpHeader packet = .error e) : e = .badParam := by
  unfold validateRtpHeader at h
  split_ifs at h <;> cases h <;> rfl

/-- `srtp_calc_aead_iv`: the nonce of the packet with the estimated index `est`. -/
def calcAeadIv (salt : Bytes) (ssrc est : ℕ) : Bytes :=
  List.zipWith (· ^^^ ·)
    ([0, 0] ++ Bytes.toBe 4 ssrc ++ Bytes.toBe 4 (est / 2 ^ 16) ++ Bytes.toBe 2 est) salt

def gcmTagLen : ℕ := 16

def keyUsageLimit : ℕ := 2 ^ 48 - 1

def toyPacket (seq saltByte : UInt8) : Bytes :=
  [0x80, 96, 0, seq, 0, 0, 0, 0, 0, 0, 0, 7] ++
    Crypto.toyTag (calcAeadIv (List.replicate 12 saltByte) 7 seq.toNat)

/-- An AES-128-GCM stream of libsrtp with a replay window of `w` packets. -/
structure SrtpStream (w : ℕ) where
  ssrc : ℕ
  rdbx : Rdbx w
  /-- How many packets the key usage limit still allows. -/
  numLeft : ℕ
  deriving DecidableEq

/-- The bits a replay window of the given size gets: the default for 0, else rounded up
to whole 32-bit words. -/
def windowBits (windowSize : ℕ) : ℕ :=
  if windowSize = 0 then 128 else (windowSize + 31) / 32 * 32

theorem windowBits_pos (windowSize : ℕ) : 0 < windowBits windowSize := by
  unfold windowBits
  split_ifs <;> omega

namespace SrtpStream

variable {w : ℕ}

/-- `srtp_add_stream` with the replay window of the policy. -/
def addStream (ssrc windowSize : ℕ) : Except SrtpError (SrtpStream (windowBits windowSize)) :=
  if windowSize ≠ 0 ∧ (windowSize < 64 ∨ 0x8000 ≤ windowSize) then .error .badParam
  else .ok ⟨ssrc, Rdbx.init _, keyUsageLimit⟩

theorem addStream_ok {ssrc windowSize : ℕ} {s : SrtpStream (windowBits windowSize)}
    (h : addStream ssrc windowSize = .ok s) : s = ⟨ssrc, Rdbx.init _, keyUsageLimit⟩ := by
  unfold addStream at h
  split_ifs at h
  cases h
  rfl

/-- `srtp_key_limit_update`; the limit is hit when no packet is left. The counter is an
unsigned 64-bit number. -/
def keyLimitUpdate (s : SrtpStream w) : SrtpStream w :=
  { s with numLeft := if s.numLeft = 0 then u64Max else s.numLeft - 1 }

@[simp] theorem keyLimitUpdate_rdbx (s : SrtpStream w) : s.keyLimitUpdate.rdbx = s.rdbx := rfl

/-- `srtp_unprotect_aead`. -/
def unprotectAead (c : Crypto) (s : SrtpStream w) (ks : KeySalt) (packet : Bytes) (est : ℕ)
    (δ : ℤ) : Except SrtpError Bytes × SrtpStream w :=
  let start := encStart packet
  -- the length without the tag is an unsigned 32-bit number
  if (packet.length + (2 ^ 32 - gcmTagLen)) % 2 ^ 32 < start then (.error .parseErr, s)
  else if packet.length - start < gcmTagLen then (.error .cipherFail, s)
  else
    let s := s.keyLimitUpdate
    if s.numLeft < 1 then (.error .keyExpired, s)
    else
      let key := (splitKeySalt ks).1
      let salt := (splitKeySalt ks).2
      match c.gcmOpen key (calcAeadIv salt (ssrcOf packet) est) (packet.take start)
        (packet.drop start) with
      | none => (.error .authFail, s)
      | some plain => (.ok (packet.take start ++ plain), { s with rdbx := s.rdbx.addIndex δ })

/-- `srtp_unprotect` behind the length check of the `srtp` crate. -/
def unprotect (c : Crypto) (s : SrtpStream w) (ks : KeySalt) (packet : Bytes) :
    Except SrtpError Bytes × SrtpStream w :=
  if 2 ^ 31 ≤ packet.length then (.error .badParam, s)
  else
    match validateRtpHeader packet with
    | .error e => (.error e, s)
    | .ok () =>
      if ssrcOf packet ≠ s.ssrc then (.error .noCtx, s)
      else
        let guess := s.rdbx.estimateIndex (seqOf packet)
        match s.rdbx.check guess.2 with
        | .error e => (.error e, s)
        | .ok () => s.unprotectAead c ks packet guess.1 guess.2

/-- `srtp_protect_aead`. -/
def protectAead (c : Crypto) (s : SrtpStream w) (ks : KeySalt) (packet : Bytes) :
    Except SrtpError Bytes × SrtpStream w :=
  let s := s.keyLimitUpdate
  if s.numLeft < 1 then (.error .keyExpired, s)
  else
    let start := encStart packet
    if packet.length < start then (.error .parseErr, s)
    else
      let guess := s.rdbx.estimateIndex (seqOf packet)
      match s.rdbx.check guess.2 with
      | .error e => (.error e, s)
      | .ok () =>
        let key := (splitKeySalt ks).1
        let salt := (splitKeySalt ks).2
        (.ok (packet.take start ++
            c.gcmSeal key (calcAeadIv salt (ssrcOf packet) guess.1) (packet.take start)
              (packet.drop start)),
          { s with rdbx := s.rdbx.addIndex guess.2 })

/-- `srtp_protect` behind the `srtp` crate, where the length with the tag is a C `int`. -/
def protect (c : Crypto) (s : SrtpStream w) (ks : KeySalt) (packet : Bytes) :
    Except SrtpError Bytes × SrtpStream w :=
  if 2 ^ 31 ≤ packet.length + gcmTagLen then (.error .badParam, s)
  else
    match validateRtpHeader packet with
    | .error e => (.error e, s)
    | .ok () =>
      if ssrcOf packet ≠ s.ssrc then (.error .noCtx, s)
      else s.protectAead c ks packet

/-- libsrtp as the receiver's SRTP library. -/
def ops (c : Crypto) (throwaway : KeySalt) (w : ℕ) : SrtpOps (SrtpStream w) where
  unprotect := unprotect c
  throwaway := throwaway

abbrev toyOps (w : ℕ) : SrtpOps (SrtpStream w) := ops Crypto.toy (ByteArr.replicate _ 0) w

/-! ## What a call can do -/

variable {c : Crypto} {s : SrtpStream w} {ks : KeySalt} {packet : Bytes} {est : ℕ} {δ : ℤ}

theorem unprotectAead_short (c : Crypto) (s : SrtpStream w) (ks : KeySalt) (est : ℕ) (δ : ℤ)
    {packet : Bytes} (h : packet.length < encStart packet + gcmTagLen) :
    s.unprotectAead c ks packet est δ = (.error .parseErr, s) ∨
      s.unprotectAead c ks packet est δ = (.error .cipherFail, s) := by
  unfold unprotectAead
  dsimp only
  split
  · exact .inl rfl
  · rw [if_pos (by omega)]
    exact .inr rfl

theorem unprotectAead_long (hlen : packet.length < 2 ^ 31)
    (h : encStart packet + gcmTagLen ≤ packet.length) :
    s.unprotectAead c ks packet est δ =
      if s.keyLimitUpdate.numLeft < 1 then (.error .keyExpired, s.keyLimitUpdate)
      else
        match c.gcmOpen (splitKeySalt ks).1 (calcAeadIv (splitKeySalt ks).2 (ssrcOf packet) est)
          (packet.take (encStart packet)) (packet.drop (encStart packet)) with
        | none => (.error .authFail, s.keyLimitUpdate)
        | some plain => (.ok (packet.take (encStart packet) ++ plain),
            { s.keyLimitUpdate with rdbx := s.rdbx.addIndex δ }) := by
  have hmod : (packet.length + (2 ^ 32 - gcmTagLen)) % 2 ^ 32 = packet.length - gcmTagLen := by
    unfold gcmTagLen at *
    omega
  unfold unprotectAead
  dsimp only
  rw [hmod, if_neg (by omega), if_neg (by omega)]
  simp only [keyLimitUpdate_rdbx]

/-- A packet that authenticates is recorded at distance `δ`; any other leaves the replay
database alone. Both use up one of the packets that the key allows, unless the packet is
rejected before that. -/
theorem unprotectAead_cases {res : Except SrtpError Bytes} {s' : SrtpStream w}
    (h : s.unprotectAead c ks packet est δ = (res, s')) :
    (∃ plain, res = .ok plain ∧ 1 ≤ s'.numLeft ∧
        s' = { s.keyLimitUpdate with rdbx := s.rdbx.addIndex δ }) ∨
      ∃ e, res = .error e ∧
        (s' = s ∨ s' = s.keyLimitUpdate ∧ (e = .keyExpired ∨ 1 ≤ s'.numLeft)) := by
  unfold unprotectAead at h
  dsimp only at h
  split at h
  · cases h
    exact .inr ⟨_, rfl, .inl rfl⟩
  split at h
  · cases h
    exact .inr ⟨_, rfl, .inl rfl⟩
  split at h
  · cases h
    exact .inr ⟨_, rfl, .inr ⟨rfl, .inl rfl⟩⟩
  rename_i hleft
  split at h
  · cases h
    exact .inr ⟨_, rfl, .inr ⟨rfl, .inr (not_lt.mp hleft)⟩⟩
  · cases h
    exact .inl ⟨_, rfl, not_lt.mp hleft, rfl⟩

theorem unprotect_of_check (hlen : packet.length < 2 ^ 31)
    (hvalid : validateRtpHeader packet = .ok ()) (hssrc : ssrcOf packet = s.ssrc)
    (hest : s.rdbx.estimateIndex (seqOf packet) = (est, δ))
    (hcheck : s.rdbx.check δ = .ok ()) :
    s.unprotect c ks packet = s.unprotectAead c ks packet est δ := by
  unfold unprotect
  simp only [if_neg (not_le.mpr hlen), hvalid, if_neg (not_not.mpr hssrc), hest, hcheck]

theorem unprotect_of_check_error {e : SrtpError} (hlen : packet.length < 2 ^ 31)
    (hvalid : validateRtpHeader packet = .ok ()) (hssrc : ssrcOf packet = s.ssrc)
    (hcheck : s.rdbx.check (s.rdbx.estimateIndex (seqOf packet)).2 = .error e) :
    s.unprotect c ks packet = (.error e, s) := by
  unfold unprotect
  simp only [if_neg (not_le.mpr hlen), hvalid, if_neg (not_not.mpr hssrc), hcheck]

theorem unprotect_cases {res : Except SrtpError Bytes} {s' : SrtpStream w}
    (h : s.unprotect c ks packet = (res, s')) :
    (∃ plain, res = .ok plain ∧ 1 ≤ s'.numLeft ∧ s' = { s.keyLimitUpdate with
        rdbx := s.rdbx.addIndex (s.rdbx.estimateIndex (seqOf packet)).2 }) ∨
      ∃ e, res = .error e ∧
        (s' = s ∨ s' = s.keyLimitUpdate ∧ (e = .keyExpired ∨ 1 ≤ s'.numLeft)) := by
  unfold unprotect at h
  split at h
  · cases h
    exact .inr ⟨_, rfl, .inl rfl⟩
  split at h
  · cases h
    exact .inr ⟨_, rfl, .inl rfl⟩
  split at h
  · cases h
    exact .inr ⟨_, rfl, .inl rfl⟩
  dsimp only at h
  split at h
  · cases h
    exact .inr ⟨_, rfl, .inl rfl⟩
  · exact unprotectAead_cases h

/-- libsrtp answers with a packet or with one of the errors that the receiver maps to a
drop: the packet passes the header checks and belongs to the stream, and it is rejected by
the replay check or has room for the tag within the key usage limit. -/
def Servable (s : SrtpStream w) (packet : Bytes) : Prop :=
  packet.length < 2 ^ 31 ∧ validateRtpHeader packet = .ok () ∧ ssrcOf packet = s.ssrc ∧
    ((∃ e, s.rdbx.check (s.rdbx.estimateIndex (seqOf packet)).2 = .error e) ∨
      (encStart packet + gcmTagLen ≤ packet.length ∧ s.keyLimitUpdate.numLeft ≠ 0))

end SrtpStream

end SafeCast
