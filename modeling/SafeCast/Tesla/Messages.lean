import SafeCast.Tesla.Chain
import SafeCast.Tesla.Schedule

/-! # Tags, extensions and commitments

The tag of a packet covers its bytes and its position. The extension carries the interval,
a disclosed key and the tag. The commitment is the signed statement a receiver starts
from.
-/

namespace SafeCast

def teslaMacLen : ℕ := 10

abbrev TeslaMac := ByteArr teslaMacLen

inductive TeslaMacAlg where
  | hmacSha256
  | gmacAes128
  deriving DecidableEq, Repr

inductive PreparedMac where
  | hmac (key : Bytes)
  | gmac (key : Bytes)
  deriving DecidableEq

namespace TeslaMacAlg

def macKeyLen : TeslaMacAlg → ℕ
  | .hmacSha256 => 32
  | .gmacAes128 => 16

def prepare (c : Crypto) (alg : TeslaMacAlg) (chainKey : ChainKey) : PreparedMac :=
  let key := macKey c chainKey alg.macKeyLen
  match alg with
  | .hmacSha256 => .hmac key
  | .gmacAes128 => .gmac key

end TeslaMacAlg

/-- The tag of a packet at a position: HMAC over the rollover count and the packet, or GMAC
with the position as nonce. -/
def PreparedMac.tag (c : Crypto) (extIndex : ℕ) (packet : Bytes) : PreparedMac → TeslaMac
  | .hmac key =>
    (c.hmacSha256 key (Bytes.toBe 4 (extIndex / 2 ^ 16) ++ packet)).take teslaMacLen (by decide)
  | .gmac key =>
    ⟨(c.gcmSeal key (List.replicate 4 0 ++ Bytes.toBe 8 extIndex) packet []).take teslaMacLen, by
      rw [List.length_take, c.length_gcmSeal]; decide⟩

/-- What a tag binds besides the key. -/
def TeslaMacAlg.tagInput (alg : TeslaMacAlg) (extIndex : ℕ) (packet : Bytes) : Bytes × Bytes :=
  match alg with
  | .hmacSha256 => (Bytes.toBe 4 (extIndex / 2 ^ 16), packet)
  | .gmacAes128 => (List.replicate 4 0 ++ Bytes.toBe 8 extIndex, packet)

def rocBits (extIndex : ℕ) : ℕ := extIndex / 2 ^ 16 % 2 ^ 32

theorem TeslaMacAlg.tagInput_inj {alg : TeslaMacAlg} {x y : ℕ} {p q : Bytes}
    (h : alg.tagInput x p = alg.tagInput y q) : p = q ∧ rocBits x = rocBits y := by
  cases alg with
  | hmacSha256 =>
    obtain ⟨hroc, hp⟩ := Prod.mk.inj h
    have := congrArg Bytes.beNat hroc
    rw [Bytes.beNat_toBe, Bytes.beNat_toBe] at this
    exact ⟨hp, this⟩
  | gmacAes128 =>
    obtain ⟨hnonce, hp⟩ := Prod.mk.inj h
    have := congrArg Bytes.beNat (List.append_cancel_left hnonce)
    rw [Bytes.beNat_toBe, Bytes.beNat_toBe] at this
    refine ⟨hp, ?_⟩
    unfold rocBits
    omega

/-- An HMAC tag depends on the 48 low bits of the position only, a GMAC tag on all of
them. -/
theorem TeslaMacAlg.tag_congr {alg : TeslaMacAlg} {x y : ℕ} (h : x % 2 ^ 48 = y % 2 ^ 48)
    (halg : alg = .gmacAes128 → x = y) (c : Crypto) (key : ChainKey) (packet : Bytes) :
    (alg.prepare c key).tag c x packet = (alg.prepare c key).tag c y packet := by
  cases alg with
  | hmacSha256 =>
    have hroc : Bytes.toBe 4 (x / 2 ^ 16) = Bytes.toBe 4 (y / 2 ^ 16) :=
      Bytes.toBe_congr (by omega)
    simp only [prepare, PreparedMac.tag, hroc]
  | gmacAes128 => rw [halg rfl]

theorem tagInput_eq_of_toy_tag {key packet : Bytes} {x y : ℕ}
    (h : (PreparedMac.gmac key).tag Crypto.toy x packet =
      (PreparedMac.gmac key).tag Crypto.toy y packet) :
    TeslaMacAlg.gmacAes128.tagInput x packet = TeslaMacAlg.gmacAes128.tagInput y packet := by
  have hval := congrArg (List.take 8 ∘ Subtype.val) h
  simp only [Function.comp_apply, PreparedMac.tag, Crypto.toy, Crypto.toyTag, List.nil_append,
    List.take_take, List.reverse_append, List.append_assoc] at hval
  have hpos : (Bytes.toBe 8 x).reverse = (Bytes.toBe 8 y).reverse := by
    simpa [List.take_append, teslaMacLen, List.take_of_length_le] using hval
  simp [TeslaMacAlg.tagInput, List.reverse_injective hpos]

/-! ## The extension -/

def teslaExtLen : ℕ := 4 + teslaKeyLen + teslaMacLen

/-- The fields a packet carries behind its SRTP part. -/
structure Extension where
  interval : ℕ
  disclosed : ChainKey
  mac : TeslaMac
  deriving DecidableEq

def appendExtension (buf : Bytes) (interval : ℕ) (disclosed : ChainKey) (mac : TeslaMac) : Bytes :=
  buf ++ Bytes.toBe 4 interval ++ disclosed.val ++ mac.val

def splitExtension (buf : Bytes) : Option (Extension × Bytes) :=
  if h : buf.length ≤ teslaExtLen then none
  else
    let base := buf.length - teslaExtLen
    some (⟨Bytes.beNat ((buf.drop base).take 4),
      ByteArr.slice buf (base + 4) teslaKeyLen (by simp only [base, teslaExtLen] at *; omega),
      ByteArr.slice buf (base + 4 + teslaKeyLen) teslaMacLen
        (by simp only [base, teslaExtLen] at *; omega)⟩,
      buf.take base)

/-- `split_extension` on the buffer it is lent: the fields, and the buffer afterwards, cut back
to the packet if there were any. -/
def splitExtensionMut (buf : Bytes) : Option Extension × Bytes :=
  match splitExtension buf with
  | none => (none, buf)
  | some (ext, packet) => (some ext, packet)

theorem splitExtension_appendExtension {buf : Bytes} {interval : ℕ} {disclosed : ChainKey}
    {mac : TeslaMac} (hbuf : buf ≠ []) (hi : interval < 2 ^ 32) :
    splitExtension (appendExtension buf interval disclosed mac) =
      some (⟨interval, disclosed, mac⟩, buf) := by
  have hpos : 0 < buf.length := List.length_pos_iff.mpr hbuf
  have hd := disclosed.length_val
  have hm := mac.length_val
  have hlen : (appendExtension buf interval disclosed mac).length = buf.length + teslaExtLen := by
    simp only [appendExtension, List.length_append, Bytes.length_toBe, hd, hm, teslaExtLen]
    omega
  have hbase : (appendExtension buf interval disclosed mac).length - teslaExtLen = buf.length := by
    omega
  unfold splitExtension
  rw [dif_neg (by omega)]
  simp only [Option.some.injEq, Prod.mk.injEq, Extension.mk.injEq]
  refine ⟨⟨?_, ?_, ?_⟩, ?_⟩
  · rw [hbase, appendExtension, List.append_assoc, List.append_assoc, List.drop_left,
      List.take_left' (Bytes.length_toBe 4 interval), Bytes.beNat_toBe]
    omega
  · apply Subtype.ext
    rw [ByteArr.slice_val, hbase, appendExtension, List.append_assoc,
      List.drop_left' (by rw [List.length_append, Bytes.length_toBe]), List.take_left' hd]
  · apply Subtype.ext
    rw [ByteArr.slice_val, hbase, appendExtension, List.drop_left' (by
      rw [List.length_append, List.length_append, Bytes.length_toBe, hd]),
      List.take_of_length_le hm.le]
  · rw [hbase, appendExtension, List.append_assoc, List.append_assoc, List.take_left]

theorem length_of_splitExtension {buf packet : Bytes} {ext : Extension}
    (h : splitExtension buf = some (ext, packet)) : buf.length = teslaExtLen + packet.length := by
  unfold splitExtension at h
  split_ifs at h with hlen
  obtain ⟨-, rfl⟩ := Prod.mk.inj (Option.some.inj h)
  rw [List.length_take]
  omega

theorem exists_splitExtension {buf : Bytes} (h : teslaExtLen < buf.length) :
    ∃ ext packet, splitExtension buf = some (ext, packet) := by
  unfold splitExtension
  rw [dif_neg (not_le.mpr h)]
  exact ⟨_, _, rfl⟩

theorem appendExtension_of_splitExtension {buf packet : Bytes} {ext : Extension}
    (h : splitExtension buf = some (ext, packet)) :
    appendExtension packet ext.interval ext.disclosed ext.mac = buf := by
  have hlength := length_of_splitExtension h
  unfold splitExtension at h
  split_ifs at h with hlen
  obtain ⟨rfl, rfl⟩ := Prod.mk.inj (Option.some.inj h)
  have hsize : ((buf.drop (buf.length - teslaExtLen)).take 4).length = 4 := by
    rw [List.length_take, List.length_drop]
    unfold teslaExtLen at *
    omega
  have hinterval : Bytes.toBe 4 (Bytes.beNat ((buf.drop (buf.length - teslaExtLen)).take 4)) =
      (buf.drop (buf.length - teslaExtLen)).take 4 := by
    have := Bytes.toBe_beNat ((buf.drop (buf.length - teslaExtLen)).take 4)
    rwa [hsize] at this
  have hmac : (buf.drop (buf.length - teslaExtLen + 4 + teslaKeyLen)).take teslaMacLen =
      buf.drop (buf.length - teslaExtLen + 4 + teslaKeyLen) := by
    apply List.take_of_length_le
    rw [List.length_drop]
    unfold teslaExtLen
    omega
  have hdrop : ∀ i j, buf.drop (i + j) = (buf.drop i).drop j := fun i j => List.drop_drop.symm
  -- the three fields are what stands behind the packet, in order
  rw [appendExtension, hinterval, ByteArr.slice_val, ByteArr.slice_val, hmac, List.append_assoc,
    List.append_assoc, hdrop _ teslaKeyLen, List.take_append_drop, hdrop _ 4,
    List.take_append_drop, List.take_append_drop]

/-- Appending and splitting are inverse, and a buffer with no room for the fields and a packet
stays as it is. -/
theorem extension_roundtrip :
    (∀ (packet : Bytes) (interval : UInt32) (disclosed : ChainKey) (mac : TeslaMac),
        packet ≠ [] →
          splitExtensionMut (appendExtension packet interval.toNat disclosed mac) =
            (some ⟨interval.toNat, disclosed, mac⟩, packet)) ∧
      (∀ buf : Bytes, 34 < buf.length → ∃ ext packet, splitExtensionMut buf = (some ext, packet) ∧
        appendExtension packet ext.interval ext.disclosed ext.mac = buf) ∧
      ∀ buf : Bytes, buf.length ≤ 34 → splitExtensionMut buf = (none, buf) := by
  refine ⟨?_, ?_, ?_⟩
  · intro packet interval disclosed mac hpacket
    rw [splitExtensionMut, splitExtension_appendExtension hpacket interval.toNat_lt]
  · intro buf hlen
    obtain ⟨ext, packet, hsplit⟩ := exists_splitExtension hlen
    refine ⟨ext, packet, ?_, appendExtension_of_splitExtension hsplit⟩
    rw [splitExtensionMut, hsplit]
  · intro buf hlen
    have hnone : splitExtension buf = none := by
      rw [splitExtension, dif_pos (show buf.length ≤ teslaExtLen from hlen)]
    rw [splitExtensionMut, hnone]

theorem extension_roundtrip_one_byte :
    splitExtensionMut (appendExtension [7] 5 (ByteArr.replicate _ 1) (ByteArr.replicate _ 2)) =
      (some ⟨5, ByteArr.replicate _ 1, ByteArr.replicate _ 2⟩, [7]) :=
  extension_roundtrip.1 [7] 5 (ByteArr.replicate _ 1) (ByteArr.replicate _ 2) (by decide)

theorem appendExtension_inj {p p' : Bytes} {i i' : ℕ} {k k' : ChainKey} {m m' : TeslaMac}
    (h : appendExtension p i k m = appendExtension p' i' k' m') :
    p = p' ∧ Bytes.toBe 4 i = Bytes.toBe 4 i' ∧ k = k' ∧ m = m' := by
  obtain ⟨h₁, hm⟩ := List.append_inj' h (by rw [m.length_val, m'.length_val])
  obtain ⟨h₂, hk⟩ := List.append_inj' h₁ (by rw [k.length_val, k'.length_val])
  obtain ⟨hp, hi⟩ := List.append_inj' h₂ (by rw [Bytes.length_toBe, Bytes.length_toBe])
  exact ⟨hp, hi, Subtype.ext hk, Subtype.ext hm⟩

/-! ## The commitment -/

def commitmentDomain : Bytes :=
  "MLS-SRTP TESLA commitment".toList.map fun ch => UInt8.ofNat ch.toNat

/-- What the sender commits to before its stream starts. -/
structure TeslaCommitment where
  anchor : ChainKey
  t0Ns : UInt64
  tIntNs : UInt64
  d : UInt32
  nChain : UInt32
  macAlg : TeslaMacAlg
  senderIdentity : Bytes
  ssrc : UInt32
  groupId : Bytes
  epoch : UInt64
  deriving DecidableEq

def TeslaMacAlg.toByte : TeslaMacAlg → UInt8
  | .hmacSha256 => 0
  | .gmacAes128 => 1

theorem TeslaMacAlg.toByte_injective : Function.Injective TeslaMacAlg.toByte := by
  intro a b h
  cases a <;> cases b <;> first | rfl | cases h

namespace TeslaCommitment

def toBytes (m : TeslaCommitment) : Bytes :=
  commitmentDomain ++ m.anchor.val ++ Bytes.toBe 8 m.t0Ns.toNat ++ Bytes.toBe 8 m.tIntNs.toNat ++
    Bytes.toBe 4 m.d.toNat ++ Bytes.toBe 4 m.nChain.toNat ++
    [m.macAlg.toByte] ++
    Bytes.toBe 4 m.senderIdentity.length ++ m.senderIdentity ++ Bytes.toBe 4 m.ssrc.toNat ++
    Bytes.toBe 4 m.groupId.length ++ m.groupId ++ Bytes.toBe 8 m.epoch.toNat

def verify (c : Crypto) (m : TeslaCommitment) (signature senderPublicKey : Bytes) : Bool :=
  c.verifySignature m.toBytes senderPublicKey signature

/-- The committed schedule with the two values local to the receiver. -/
def schedule (m : TeslaCommitment) (dTNs : UInt64) (gMax : UInt32) : Except Panic TeslaSchedule :=
  TeslaSchedule.new m.t0Ns m.tIntNs m.d m.nChain dTNs gMax

/-- The signed bytes determine the commitment; so a signature that binds its message is good
for one commitment only. -/
theorem toBytes_inj (m m' : TeslaCommitment) (hid : m.senderIdentity.length < 2 ^ 32)
    (hid' : m'.senderIdentity.length < 2 ^ 32) (hgroup : m.groupId.length < 2 ^ 32)
    (hgroup' : m'.groupId.length < 2 ^ 32) :
    (m.toBytes = m'.toBytes → m = m') ∧
      ∀ (c : Crypto) (signature senderPublicKey : Bytes),
        (∀ b b', c.verifySignature b senderPublicKey signature = true →
          c.verifySignature b' senderPublicKey signature = true → b = b') →
        m.verify c signature senderPublicKey = true →
        m'.verify c signature senderPublicKey = true → m = m' := by
  have hinj : m.toBytes = m'.toBytes → m = m' := by
    intro h
    -- from the left, every field has a width that the bytes before it fix
    simp only [toBytes, List.append_assoc] at h
    obtain ⟨hanchor, h⟩ := List.append_inj (List.append_cancel_left h)
      (by rw [m.anchor.length_val, m'.anchor.length_val])
    obtain ⟨ht0, h⟩ := List.append_inj h (by simp)
    obtain ⟨htInt, h⟩ := List.append_inj h (by simp)
    obtain ⟨hd, h⟩ := List.append_inj h (by simp)
    obtain ⟨hnChain, h⟩ := List.append_inj h (by simp)
    obtain ⟨halg, h⟩ := List.append_inj h (by simp)
    obtain ⟨hidentity, h⟩ := Bytes.lengthPrefixed_inj hid hid' h
    obtain ⟨hssrc, h⟩ := List.append_inj h (by simp)
    obtain ⟨hgroupId, hepoch⟩ := Bytes.lengthPrefixed_inj hgroup hgroup' h
    cases m
    cases m'
    simp only [TeslaCommitment.mk.injEq]
    exact ⟨Subtype.ext hanchor, Bytes.toBe_uint64_inj ht0, Bytes.toBe_uint64_inj htInt,
      Bytes.toBe_uint32_inj hd, Bytes.toBe_uint32_inj hnChain,
      TeslaMacAlg.toByte_injective (List.singleton_inj.mp halg), hidentity,
      Bytes.toBe_uint32_inj hssrc, hgroupId, Bytes.toBe_uint64_inj hepoch⟩
  refine ⟨hinj, ?_⟩
  intro c signature senderPublicKey hbind hm hm'
  exact hinj (hbind _ _ hm hm')

/-- A byte that moves from the identity to the group changes the signed bytes, and with a
signature that is the message itself it does not verify. -/
theorem toBytes_ne_of_shift :
    let m : TeslaCommitment := ⟨ByteArr.replicate _ 0, 0, 10, 2, 5, .hmacSha256, [1, 2], 7, [3], 0⟩
    let m' : TeslaCommitment := { m with senderIdentity := [1], groupId := [2, 3] }
    let c : Crypto := { Crypto.toy with verifySignature := fun b _ signature => b == signature }
    m.toBytes ≠ m'.toBytes ∧ m.verify c m.toBytes [] = true ∧
      ¬ m'.verify c m.toBytes [] = true := by
  intro m m' c
  have hne : m ≠ m' := by decide
  obtain ⟨hbytes, hsig⟩ := toBytes_inj m m' (by decide) (by decide) (by decide) (by decide)
  have hm : m.verify c m.toBytes [] = true := beq_self_eq_true _
  refine ⟨fun h => hne (hbytes h), hm, ?_⟩
  intro hm'
  apply hne
  apply hsig c m.toBytes [] _ hm hm'
  intro b b' hb hb'
  exact (eq_of_beq hb).trans (eq_of_beq hb').symm

end TeslaCommitment

end SafeCast
