import Mathlib

/-!
# Little-endian byte strings of naturals

`toBytes w n` are the `w` low bytes of `n`, least significant first; `ofBytes`
reads such a string back. The two are inverse on strings of length `w` and on
numbers below `256 ^ w`.
-/

namespace LittleEndian

/-- The `w` low bytes of `n`, least significant first. -/
def toBytes : Nat → Nat → List UInt8
  | 0, _ => []
  | w + 1, n => UInt8.ofNat n :: toBytes w (n / 256)

/-- The number with the given bytes, least significant first. -/
def ofBytes : List UInt8 → Nat
  | [] => 0
  | b :: bs => b.toNat + 256 * ofBytes bs

/-- The number in the `w` bytes of `data` from `off` on. -/
def field (data : List UInt8) (off w : Nat) : Nat := ofBytes ((data.drop off).take w)

@[simp] theorem length_toBytes (w n : Nat) : (toBytes w n).length = w := by
  induction w generalizing n with
  | zero => rfl
  | succ w ih => simp [toBytes, ih]

theorem ofBytes_lt (bs : List UInt8) : ofBytes bs < 256 ^ bs.length := by
  induction bs with
  | nil => simp [ofBytes]
  | cons b bs ih =>
    have hb := b.toNat_lt
    simp only [ofBytes, List.length_cons, pow_succ]
    omega

theorem ofBytes_snoc (bs : List UInt8) (b : UInt8) :
    ofBytes (bs ++ [b]) = ofBytes bs + 256 ^ bs.length * b.toNat := by
  induction bs with
  | nil => simp [ofBytes]
  | cons c bs ih =>
    simp only [List.cons_append, ofBytes, ih, List.length_cons, pow_succ]
    ring

theorem ofBytes_toBytes {w n : Nat} (h : n < 256 ^ w) : ofBytes (toBytes w n) = n := by
  induction w generalizing n with
  | zero => simp at h; simp [toBytes, ofBytes, h]
  | succ w ih =>
    have hq : n / 256 < 256 ^ w := by rw [pow_succ] at h; omega
    simp only [toBytes, ofBytes, ih hq, UInt8.toNat_ofNat']
    omega

theorem toBytes_ofBytes (bs : List UInt8) : toBytes bs.length (ofBytes bs) = bs := by
  induction bs with
  | nil => rfl
  | cons b bs ih =>
    have hb := b.toNat_lt
    have low : UInt8.ofNat (b.toNat + 256 * ofBytes bs) = b := by
      apply UInt8.toNat_inj.1
      rw [UInt8.toNat_ofNat']
      omega
    have high : (b.toNat + 256 * ofBytes bs) / 256 = ofBytes bs := by omega
    rw [List.length_cons, toBytes, ofBytes, low, high, ih]

/-- A field behind the first part of a byte string. -/
theorem field_append_right {xs ys : List UInt8} {off w : Nat} (h : xs.length ≤ off) :
    field (xs ++ ys) off w = field ys (off - xs.length) w := by
  rw [field, List.drop_append, List.drop_of_length_le h, List.nil_append, ← field]

/-- A number that was put in front reads back. -/
theorem field_toBytes {ys : List UInt8} {w n : Nat} (h : n < 256 ^ w) : field (toBytes w n ++ ys) 0 w = n := by
  have len : (toBytes w n).length = w := length_toBytes w n
  rw [field, List.drop_zero, List.take_append_of_le_length (by omega), List.take_of_length_le (by omega),
    ofBytes_toBytes h]

end LittleEndian
