import Mathlib.Data.List.Induction
import Mathlib.Tactic.Ring

/-! # Byte strings and big-endian numbers

Fixed-size byte arrays are byte strings with their length. The big-endian encoding
into `n` bytes and the value of a byte string are inverse up to reduction
modulo `256 ^ n`.
-/

abbrev Bytes := List UInt8

def ByteArr (n : ℕ) := {b : Bytes // b.length = n}
  deriving DecidableEq

namespace ByteArr

variable {n : ℕ}

theorem length_val (b : ByteArr n) : b.val.length = n := b.property

def take (b : ByteArr n) (m : ℕ) (h : m ≤ n) : ByteArr m :=
  ⟨b.val.take m, by rw [List.length_take, b.property]; omega⟩

def replicate (n : ℕ) (x : UInt8) : ByteArr n := ⟨List.replicate n x, by simp⟩

def slice (b : Bytes) (i n : ℕ) (h : i + n ≤ b.length) : ByteArr n :=
  ⟨(b.drop i).take n, by rw [List.length_take, List.length_drop]; omega⟩

theorem slice_val (b : Bytes) (i n : ℕ) (h : i + n ≤ b.length) :
    (slice b i n h).val = (b.drop i).take n := rfl

end ByteArr

namespace Bytes

def beNat (b : Bytes) : ℕ := b.foldl (fun acc x => acc * 256 + x.toNat) 0

/-- The big-endian encoding of `x % 256 ^ n` into `n` bytes. -/
def toBe : ℕ → ℕ → Bytes
  | 0, _ => []
  | n + 1, x => toBe n (x / 256) ++ [UInt8.ofNat x]

def toLe (n x : ℕ) : Bytes := (toBe n x).reverse

@[simp] theorem length_toBe (n x : ℕ) : (toBe n x).length = n := by
  induction n generalizing x with
  | zero => rfl
  | succ n ih => simp [toBe, ih]

@[simp] theorem length_toLe (n x : ℕ) : (toLe n x).length = n := by simp [toLe]

@[simp] theorem beNat_nil : beNat [] = 0 := rfl

theorem beNat_concat (b : Bytes) (x : UInt8) : beNat (b ++ [x]) = beNat b * 256 + x.toNat := by
  simp [beNat]

theorem beNat_lt (b : Bytes) : beNat b < 256 ^ b.length := by
  induction b using List.reverseRecOn with
  | nil => simp
  | append_singleton b x ih =>
    rw [beNat_concat, List.length_append, List.length_singleton, pow_succ]
    have := x.toNat_lt
    omega

@[simp] theorem beNat_toBe (n x : ℕ) : beNat (toBe n x) = x % 256 ^ n := by
  induction n generalizing x with
  | zero => simp [toBe, Nat.mod_one]
  | succ n ih =>
    have hp : 256 ^ (n + 1) = 256 * 256 ^ n := by ring
    rw [toBe, beNat_concat, ih, UInt8.toNat_ofNat', hp, Nat.mod_mul]
    omega

theorem toBe_beNat (b : Bytes) : toBe b.length (beNat b) = b := by
  induction b using List.reverseRecOn with
  | nil => rfl
  | append_singleton b x ih =>
    have hx := x.toNat_lt
    rw [List.length_append, List.length_singleton, toBe, beNat_concat,
      show (beNat b * 256 + x.toNat) / 256 = beNat b by omega, ih]
    congr 2
    apply UInt8.toNat_inj.mp
    rw [UInt8.toNat_ofNat']
    omega

theorem toBe_congr {n x y : ℕ} (h : x % 256 ^ n = y % 256 ^ n) : toBe n x = toBe n y := by
  rw [← beNat_toBe, ← beNat_toBe] at h
  have hx := toBe_beNat (toBe n x)
  have hy := toBe_beNat (toBe n y)
  rw [length_toBe] at hx hy
  rw [← hx, h, hy]

theorem toBe_inj {n x y : ℕ} (hx : x < 256 ^ n) (hy : y < 256 ^ n) (h : toBe n x = toBe n y) :
    x = y := by
  have hmod : x % 256 ^ n = y % 256 ^ n := by rw [← beNat_toBe, ← beNat_toBe, h]
  rwa [Nat.mod_eq_of_lt hx, Nat.mod_eq_of_lt hy] at hmod

theorem toBe_uint32_inj {x y : UInt32} (h : toBe 4 x.toNat = toBe 4 y.toNat) : x = y :=
  UInt32.toNat_inj.mp (toBe_inj x.toNat_lt y.toNat_lt h)

theorem toBe_uint64_inj {x y : UInt64} (h : toBe 8 x.toNat = toBe 8 y.toNat) : x = y :=
  UInt64.toNat_inj.mp (toBe_inj x.toNat_lt y.toNat_lt h)

theorem lengthPrefixed_inj {a b rest rest' : Bytes} (ha : a.length < 2 ^ 32)
    (hb : b.length < 2 ^ 32)
    (h : toBe 4 a.length ++ (a ++ rest) = toBe 4 b.length ++ (b ++ rest')) :
    a = b ∧ rest = rest' := by
  obtain ⟨hlen, htail⟩ := List.append_inj h (by simp)
  exact List.append_inj htail (toBe_inj ha hb hlen)

end Bytes
