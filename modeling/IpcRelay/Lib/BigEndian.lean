import Mathlib

/-!
# Big-endian numbers

`bigEndian` is the number that a list of bytes stands for, `bigEndianBytes` the
lowest bytes of a number. Reading what was written gives the number back.
-/

/-- The number that bytes stand for, the first being the highest. -/
def bigEndian (bytes : List UInt8) : Nat := bytes.foldl (fun n b => 256 * n + b.toNat) 0

/-- The `k` lowest bytes of a number, the highest first. -/
def bigEndianBytes : Nat → Nat → List UInt8
  | 0, _ => []
  | k + 1, n => bigEndianBytes k (n / 256) ++ [UInt8.ofNat n]

theorem bigEndian_concat (bytes : List UInt8) (b : UInt8) : bigEndian (bytes ++ [b]) = 256 * bigEndian bytes + b.toNat := by
  unfold bigEndian
  rw [List.foldl_append]
  rfl

theorem bigEndian_bytes {k n : Nat} (fits : n < 256 ^ k) : bigEndian (bigEndianBytes k n) = n := by
  induction k generalizing n with
  | zero =>
    rw [Nat.lt_one_iff.1 fits]
    rfl
  | succ k ih =>
    have high : n / 256 < 256 ^ k := Nat.div_lt_of_lt_mul (by rwa [Nat.pow_succ, Nat.mul_comm] at fits)
    rw [bigEndianBytes, bigEndian_concat, ih high, UInt8.toNat_ofNat']
    exact Nat.div_add_mod n 256

@[simp] theorem length_bigEndianBytes (k n : Nat) : (bigEndianBytes k n).length = k := by
  induction k generalizing n with
  | zero => rfl
  | succ k ih => rw [bigEndianBytes, List.length_append, ih]; rfl
