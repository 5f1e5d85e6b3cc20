import Mathlib.Logic.Function.Iterate
import SafeCast.Primitives

/-! # The stream ratchet

Each generation has a chain secret; one expansion of it gives the generation's SRTP
key and salt, another the next secret. `secretAt` and `keyAt` are the secrets and
keys a ratchet will produce, as functions of the generation.
-/

namespace SafeCast

def srtpKeyMaterialLen : ℕ := 28

def aes128GcmKeyLen : ℕ := 16

def chainSecretLen : ℕ := 32

/-- The SRTP session key and salt of one generation, `key(16) ‖ salt(12)`. -/
abbrev KeySalt := ByteArr srtpKeyMaterialLen

def chainLabel : Bytes := "next generation".toList.map fun ch => UInt8.ofNat ch.toNat

def keyMaterialLabel : Bytes := "srtp key material".toList.map fun ch => UInt8.ofNat ch.toNat

/-- A forward-only ratchet: the chain secret of the current generation. -/
structure StreamRatchet where
  chainSecret : ByteArr chainSecretLen
  generation : ℕ

def chainStep (c : Crypto) (secret : ByteArr chainSecretLen) : ByteArr chainSecretLen :=
  c.hkdfExpand secret.val chainLabel chainSecretLen

def expandKeySalt (c : Crypto) (secret : ByteArr chainSecretLen) : KeySalt :=
  c.hkdfExpand secret.val keyMaterialLabel srtpKeyMaterialLen

def splitKeySalt (ks : KeySalt) : Bytes × Bytes :=
  (ks.val.take aes128GcmKeyLen, ks.val.drop aes128GcmKeyLen)

namespace StreamRatchet

def fromSeed (seed : Bytes) : Except Panic StreamRatchet :=
  if h : seed.length = chainSecretLen then .ok ⟨⟨seed, h⟩, 0⟩ else .error .seedLength

def deriveKeySalt (c : Crypto) (r : StreamRatchet) : KeySalt := expandKeySalt c r.chainSecret

def advance (c : Crypto) (r : StreamRatchet) : StreamRatchet :=
  ⟨chainStep c r.chainSecret, r.generation + 1⟩

def nextKeySalt (c : Crypto) (r : StreamRatchet) : (ℕ × KeySalt) × StreamRatchet :=
  ((r.generation, r.deriveKeySalt c), r.advance c)

variable (c : Crypto) (r : StreamRatchet)

/-- The chain secret of generation `g`, for `g` from the ratchet's generation on. -/
def secretAt (g : ℕ) : ByteArr chainSecretLen :=
  (chainStep c)^[g - r.generation] r.chainSecret

def keyAt (g : ℕ) : KeySalt := expandKeySalt c (r.secretAt c g)

/-- The ratchet moved forward to generation `g`. -/
def moveTo (g : ℕ) : StreamRatchet := ⟨r.secretAt c g, g⟩

@[simp] theorem moveTo_generation (g : ℕ) : (r.moveTo c g).generation = g := rfl

@[simp] theorem moveTo_self : r.moveTo c r.generation = r := by
  simp [moveTo, secretAt]

variable {c r}

theorem secretAt_succ {g : ℕ} (h : r.generation ≤ g) :
    r.secretAt c (g + 1) = chainStep c (r.secretAt c g) := by
  rw [secretAt, secretAt, Nat.sub_add_comm h, Function.iterate_succ_apply']

theorem nextKeySalt_moveTo {g : ℕ} (h : r.generation ≤ g) :
    (r.moveTo c g).nextKeySalt c = ((g, r.keyAt c g), r.moveTo c (g + 1)) := by
  simp only [nextKeySalt, deriveKeySalt, advance, moveTo, keyAt, secretAt_succ h]

end StreamRatchet

end SafeCast
