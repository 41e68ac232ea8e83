import Mathlib.Data.List.Basic
import Mathlib.Tactic.Ring

/-!
# Little-endian fields

`encode w n` writes the low `w` bytes of `n`, least significant first, and
`decode` reads such a field back.  A value that fits the width survives the
round trip, and any field is the encoding of what it decodes to.
-/

namespace LittleEndian

/-- The low `w` bytes of `n`, least significant first. -/
def encode : Nat → Nat → List UInt8
  | 0, _ => []
  | w + 1, n => UInt8.ofNat n :: encode w (n / 256)

/-- The number a little-endian field holds. -/
def decode : List UInt8 → Nat
  | [] => 0
  | b :: bs => b.toNat + 256 * decode bs

@[simp] theorem length_encode (w n : Nat) : (encode w n).length = w := by
  induction w generalizing n with
  | zero => rfl
  | succ w ih => simp [encode, ih]

/-- A field of `w` bytes keeps the value modulo `256 ^ w`. -/
theorem decode_encode (w n : Nat) : decode (encode w n) = n % 256 ^ w := by
  induction w generalizing n with
  | zero => simp [encode, decode, Nat.mod_one]
  | succ w ih =>
      have hbyte : (UInt8.ofNat n).toNat = n % 256 := by simp
      rw [encode, decode, ih, hbyte, pow_succ', Nat.mod_mul]

theorem decode_encode_of_lt {w n : Nat} (h : n < 256 ^ w) :
    decode (encode w n) = n := by
  rw [decode_encode, Nat.mod_eq_of_lt h]

/-- A field is the encoding of the number it holds. -/
theorem encode_decode (bs : List UInt8) : encode bs.length (decode bs) = bs := by
  induction bs with
  | nil => rfl
  | cons b bs ih =>
      have hbyte : UInt8.ofNat (b.toNat + 256 * decode bs) = b := by
        apply UInt8.toNat_inj.mp
        have hlt := b.toNat_lt
        rw [UInt8.toNat_ofNat']
        omega
      have hrest : (b.toNat + 256 * decode bs) / 256 = decode bs := by
        have hlt := b.toNat_lt
        omega
      rw [List.length_cons, decode, encode, hbyte, hrest, ih]

theorem decode_lt (bs : List UInt8) : decode bs < 256 ^ bs.length := by
  induction bs with
  | nil => simp [decode]
  | cons b bs ih =>
      have hb : b.toNat < 256 := b.toNat_lt
      rw [decode, List.length_cons, pow_succ]
      omega

end LittleEndian
