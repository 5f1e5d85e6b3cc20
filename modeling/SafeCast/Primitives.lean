import SafeCast.Library.Bytes

/-! # Primitives outside the repository, and aborts

The cryptographic primitives come from third-party crates and OpenSSL. They are
parameters, with the laws the code relies on. Where the source can abort (an
assertion, an `expect`, a `panic!`, an arithmetic overflow), the model returns a
`Panic` that names the place.
-/

namespace SafeCast

/-- The cryptographic primitives the code calls, with the laws of AES-GCM it needs. -/
structure Crypto where
  /-- HKDF-Expand over SHA-256: secret, label and output length. -/
  hkdfExpand : Bytes → Bytes → (n : ℕ) → ByteArr n
  /-- HMAC-SHA256: key and message. -/
  hmacSha256 : Bytes → Bytes → ByteArr 32
  /-- AES-128-GCM encryption: key, nonce, associated data and plaintext to
  ciphertext and tag. -/
  gcmSeal : Bytes → Bytes → Bytes → Bytes → Bytes
  gcmOpen : Bytes → Bytes → Bytes → Bytes → Option Bytes
  /-- The signature check: message, public key and signature. -/
  verifySignature : Bytes → Bytes → Bytes → Bool
  length_gcmSeal : ∀ key iv aad plain, (gcmSeal key iv aad plain).length = plain.length + 16
  gcmOpen_gcmSeal : ∀ key iv aad plain, gcmOpen key iv aad (gcmSeal key iv aad plain) = some plain

namespace Crypto

def toyTag (iv : Bytes) : Bytes := (iv.reverse ++ List.replicate 16 0).take 16

theorem length_toyTag (iv : Bytes) : (toyTag iv).length = 16 := by simp [toyTag]

/-- A small instance that evaluates: the laws can be met. -/
def toy : Crypto where
  hkdfExpand secret _ n := ByteArr.replicate n (secret.headD 0 + 1)
  hmacSha256 key _ := ⟨(((key.headD 0 + 1) :: key.tail) ++ List.replicate 32 0).take 32, by simp⟩
  gcmSeal _ iv _ plain := plain ++ toyTag iv
  gcmOpen _ iv _ ciphertext :=
    if ciphertext.drop (ciphertext.length - 16) = toyTag iv then
      some (ciphertext.take (ciphertext.length - 16))
    else none
  verifySignature _ _ _ := true
  length_gcmSeal _ iv _ plain := by simp [length_toyTag]
  gcmOpen_gcmSeal _ iv _ plain := by simp [length_toyTag]

theorem toy_gcmOpen_gcmSeal (key key' iv iv' aad aad' plain : Bytes) :
    toy.gcmOpen key' iv' aad' (toy.gcmSeal key iv aad plain) =
      if toyTag iv = toyTag iv' then some plain else none := by
  simp [toy, length_toyTag]

theorem toyTag_inj {iv iv' : Bytes} (hlen : iv.length = iv'.length) (hshort : iv.length ≤ 16)
    (h : toyTag iv = toyTag iv') : iv = iv' := by
  have htake : ∀ iv : Bytes, iv.length ≤ 16 → (toyTag iv).take iv.length = iv.reverse := by
    intro iv hiv
    rw [toyTag, List.take_take, min_eq_left hiv, List.take_left' (List.length_reverse)]
  have hrev := htake iv hshort
  rw [h, hlen, htake iv' (by omega)] at hrev
  exact (List.reverse_inj.mp hrev).symm

end Crypto

/-- The error statuses of libsrtp, as the `srtp` crate names them. -/
inductive SrtpError where
  | fail | badParam | allocFail | deallocFail | initFail | terminus | authFail | cipherFail
  | replayFail | replayOld | algoFail | noSuchOp | noCtx | cantCheck | keyExpired | socketErr
  | signalErr | nonceBad | readFail | writeFail | parseErr | encodeErr | semaphoreErr
  | pfkeyErr | badMki | pktIdxOld | pktIdxAdv
  deriving DecidableEq, Repr

/-- The places where the source aborts. -/
inductive Panic where
  | seedLength
  | emptyWindow
  | addStreamFailed (e : SrtpError)
  | divisionByZero
  | shortPacket
  | missingFromRing (g : ℕ)
  | noDerivedKey
  | unexpectedSrtpError (e : SrtpError)
  | protectFailed (e : SrtpError)
  | payloadTooSmall
  | zeroInterval
  | delayBelowTwo
  | emptyChain
  | zeroMisorderingCap
  | sendBeforeStart
  | chainExhausted (interval nChain : ℕ)
  | overflow
  | outOfRange
  deriving DecidableEq, Repr

def u64Max : ℕ := 2 ^ 64 - 1

def rtpHeaderLen : ℕ := 12

def seqOf (packet : Bytes) : ℕ := Bytes.beNat ((packet.drop 2).take 2)

def timestampOf (packet : Bytes) : ℕ := Bytes.beNat ((packet.drop 4).take 4)

def ssrcOf (packet : Bytes) : ℕ := Bytes.beNat ((packet.drop 8).take 4)

theorem seqOf_lt (packet : Bytes) : seqOf packet < 2 ^ 16 := by
  have hlt := Bytes.beNat_lt ((packet.drop 2).take 2)
  have hle : 256 ^ ((packet.drop 2).take 2).length ≤ 256 ^ 2 :=
    Nat.pow_le_pow_right (by norm_num) (by simp)
  exact lt_of_lt_of_le hlt hle

end SafeCast
