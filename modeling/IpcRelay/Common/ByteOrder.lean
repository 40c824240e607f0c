import IpcRelay.Common.Memory
import IpcRelay.Lib.LittleEndian

/-!
# Little-endian serialization helpers (`common/byteorder.hpp`)

`put*` write a value byte by byte, `get*` read one back. `put*_eq` gives every
writer as the little-endian bytes of its number, `get*_spec` every reader as
the number of the bytes it covers; the wire and file formats above use only
these and `LittleEndian`.
-/

namespace IpcRelay

open LittleEndian

def putU16le (v : UInt16) : Bytes :=
  [(v &&& 0xFF).toUInt8, ((v >>> 8) &&& 0xFF).toUInt8]

def putU32le (v : UInt32) : Bytes :=
  [(v &&& 0xFF).toUInt8, ((v >>> 8) &&& 0xFF).toUInt8, ((v >>> 16) &&& 0xFF).toUInt8,
    ((v >>> 24) &&& 0xFF).toUInt8]

def putU64le (v : UInt64) : Bytes :=
  ([0, 1, 2, 3, 4, 5, 6, 7] : List UInt64).map fun i => ((v >>> (8 * i)) &&& 0xFF).toUInt8

def getU16le (p : Bytes) (off : Nat) : Exec UInt16 := do
  let b0 ← byteAt p off
  let b1 ← byteAt p (off + 1)
  return b0.toUInt16 ||| (b1.toUInt16 <<< 8)

def getU32le (p : Bytes) (off : Nat) : Exec UInt32 := do
  let b0 ← byteAt p off
  let b1 ← byteAt p (off + 1)
  let b2 ← byteAt p (off + 2)
  let b3 ← byteAt p (off + 3)
  return b0.toUInt32 ||| (b1.toUInt32 <<< 8) ||| (b2.toUInt32 <<< 16) ||| (b3.toUInt32 <<< 24)

/-- The loop over `i = 7, …, 0` of `v = (v << 8) | p[i]`. -/
def getU64le (p : Bytes) (off : Nat) : Exec UInt64 :=
  [7, 6, 5, 4, 3, 2, 1, 0].foldlM (fun v i => do
    let b ← byteAt p (off + i)
    return (v <<< 8) ||| b.toUInt64) 0

section Writers

@[simp] theorem length_putU16le (v : UInt16) : (putU16le v).length = 2 := by simp [putU16le]

@[simp] theorem length_putU32le (v : UInt32) : (putU32le v).length = 4 := by simp [putU32le]

@[simp] theorem length_putU64le (v : UInt64) : (putU64le v).length = 8 := by simp [putU64le]

theorem and_255 (n : Nat) : n &&& 255 = n % 256 := Nat.and_two_pow_sub_one_eq_mod n 8

theorem putU16le_eq (v : UInt16) : putU16le v = toBytes 2 v.toNat := by
  have hv := v.toNat_lt
  simp only [putU16le, toBytes, List.cons.injEq, and_true]
  refine ⟨?_, ?_⟩ <;> apply UInt8.toNat_inj.1 <;> simp [and_255, Nat.shiftRight_eq_div_pow]

theorem putU32le_eq (v : UInt32) : putU32le v = toBytes 4 v.toNat := by
  have hv := v.toNat_lt
  simp only [putU32le, toBytes, List.cons.injEq, and_true]
  refine ⟨?_, ?_, ?_, ?_⟩ <;> apply UInt8.toNat_inj.1 <;>
    simp [and_255, Nat.shiftRight_eq_div_pow, Nat.div_div_eq_div_mul]

theorem putU64le_eq (v : UInt64) : putU64le v = toBytes 8 v.toNat := by
  have hv := v.toNat_lt
  simp only [putU64le, List.map, toBytes, List.cons.injEq, and_true]
  refine ⟨?_, ?_, ?_, ?_, ?_, ?_, ?_, ?_⟩ <;> apply UInt8.toNat_inj.1 <;>
    simp [and_255, Nat.shiftRight_eq_div_pow, Nat.div_div_eq_div_mul]

end Writers

section Readers

/-- Or-ing a shifted part onto lower bits is adding it. -/
theorem or_shift {lo k : Nat} (h : lo < 2 ^ k) (hi : Nat) : lo ||| hi <<< k = lo + hi * 2 ^ k := by
  rw [Nat.or_comm, ← Nat.shiftLeft_add_eq_or_of_lt h, Nat.shiftLeft_eq, Nat.add_comm]

theorem toNat_u16 (b0 b1 : UInt8) :
    (b0.toUInt16 ||| (b1.toUInt16 <<< 8)).toNat = b0.toNat + 256 * b1.toNat := by
  have h0 := b0.toNat_lt
  have h1 := b1.toNat_lt
  have shifted : (b1.toUInt16 <<< 8).toNat = b1.toNat <<< 8 := by
    simp [Nat.shiftLeft_eq]; omega
  rw [UInt16.toNat_or, shifted, UInt8.toNat_toUInt16, or_shift (by omega)]
  omega

theorem toNat_u32 (b0 b1 b2 b3 : UInt8) :
    (b0.toUInt32 ||| (b1.toUInt32 <<< 8) ||| (b2.toUInt32 <<< 16) ||| (b3.toUInt32 <<< 24)).toNat =
      b0.toNat + 256 * (b1.toNat + 256 * (b2.toNat + 256 * b3.toNat)) := by
  have h0 := b0.toNat_lt
  have h1 := b1.toNat_lt
  have h2 := b2.toNat_lt
  have h3 := b3.toNat_lt
  have e1 : (b1.toUInt32 <<< 8).toNat = b1.toNat <<< 8 := by simp [Nat.shiftLeft_eq]; omega
  have e2 : (b2.toUInt32 <<< 16).toNat = b2.toNat <<< 16 := by simp [Nat.shiftLeft_eq]; omega
  have e3 : (b3.toUInt32 <<< 24).toNat = b3.toNat <<< 24 := by simp [Nat.shiftLeft_eq]; omega
  have s1 := or_shift (show b0.toNat < 2 ^ 8 by omega) b1.toNat
  have s2 := or_shift (show b0.toNat + b1.toNat * 2 ^ 8 < 2 ^ 16 by omega) b2.toNat
  have s3 := or_shift (show b0.toNat + b1.toNat * 2 ^ 8 + b2.toNat * 2 ^ 16 < 2 ^ 24 by omega) b3.toNat
  rw [UInt32.toNat_or, UInt32.toNat_or, UInt32.toNat_or, e1, e2, e3, UInt8.toNat_toUInt32, s1, s2, s3]
  omega

/-- One turn of the 64-bit loop while the top byte is still empty. -/
theorem toNat_u64_step {v : UInt64} (h : v.toNat < 2 ^ 56) (b : UInt8) :
    ((v <<< 8) ||| b.toUInt64).toNat = b.toNat + 256 * v.toNat := by
  have hb := b.toNat_lt
  have shifted : (v <<< 8).toNat = v.toNat <<< 8 := by
    simp [Nat.shiftLeft_eq]; omega
  rw [UInt64.toNat_or, shifted, UInt8.toNat_toUInt64, Nat.or_comm, or_shift (by omega)]
  omega

theorem take_drop_succ {p : Bytes} {off : Nat} (h : off < p.length) (n : Nat) :
    (p.drop off).take (n + 1) = p[off] :: (p.drop (off + 1)).take n := by
  rw [List.drop_eq_getElem_cons h, List.take_succ_cons]

/-- Reading inside the buffer gives the number of the bytes covered. -/
theorem getU16le_spec {p : Bytes} {off : Nat} (h : off + 2 ≤ p.length) :
    getU16le p off = .ok (UInt16.ofNat (field p off 2)) := by
  have covered : (p.drop off).take 2 = [p[off], p[off + 1]] := by
    rw [take_drop_succ (by omega), take_drop_succ (by omega)]; rfl
  have h0 := p[off].toNat_lt
  have h1 := p[off + 1].toNat_lt
  simp only [getU16le, byteAt_of_lt (show off < p.length by omega),
    byteAt_of_lt (show off + 1 < p.length by omega), bind, Except.bind, pure, Except.pure]
  congr 1
  apply UInt16.toNat_inj.1
  rw [toNat_u16, UInt16.toNat_ofNat', field, covered]
  simp only [ofBytes]
  omega

theorem getU32le_spec {p : Bytes} {off : Nat} (h : off + 4 ≤ p.length) :
    getU32le p off = .ok (UInt32.ofNat (field p off 4)) := by
  have covered : (p.drop off).take 4 = [p[off], p[off + 1], p[off + 2], p[off + 3]] := by
    rw [take_drop_succ (by omega), take_drop_succ (by omega), take_drop_succ (by omega),
      take_drop_succ (by omega)]
    rfl
  have h0 := p[off].toNat_lt
  have h1 := p[off + 1].toNat_lt
  have h2 := p[off + 2].toNat_lt
  have h3 := p[off + 3].toNat_lt
  simp only [getU32le, byteAt_of_lt (show off < p.length by omega),
    byteAt_of_lt (show off + 1 < p.length by omega), byteAt_of_lt (show off + 2 < p.length by omega),
    byteAt_of_lt (show off + 3 < p.length by omega), bind, Except.bind, pure, Except.pure]
  congr 1
  apply UInt32.toNat_inj.1
  rw [toNat_u32, UInt32.toNat_ofNat', field, covered]
  simp only [ofBytes]
  omega

/-- The 64-bit loop with `k` bytes still to read: they are the low bytes of the
result and the accumulator is above them. -/
theorem getU64le_loop {p : Bytes} {off : Nat} :
    ∀ (k : Nat) (v : UInt64), off + k ≤ p.length → k ≤ 8 → v.toNat < 256 ^ (8 - k) →
      (List.range k).reverse.foldlM (fun (v : UInt64) i => do
          let b ← byteAt p (off + i)
          return (v <<< 8) ||| b.toUInt64) v =
        (.ok (UInt64.ofNat (ofBytes ((p.drop off).take k) + 256 ^ k * v.toNat)) : Exec UInt64) := by
  intro k
  induction k with
  | zero => intro v _ _ _; simp [ofBytes, pure, Except.pure]
  | succ k ih =>
    intro v hp hk hv
    have hb := p[off + k].toNat_lt
    have room : (256 : Nat) ^ (8 - (k + 1)) ≤ 2 ^ 56 := by
      calc (256 : Nat) ^ (8 - (k + 1)) ≤ 256 ^ 7 := Nat.pow_le_pow_right (by omega) (by omega)
        _ = 2 ^ 56 := by norm_num
    have step := toNat_u64_step (show v.toNat < 2 ^ 56 by omega) p[off + k]
    have next : ((v <<< 8) ||| p[off + k].toUInt64).toNat < 256 ^ (8 - k) := by
      rw [step, show 8 - k = (8 - (k + 1)) + 1 by omega, pow_succ]
      omega
    have top : (p.drop off).take (k + 1) = (p.drop off).take k ++ [p[off + k]] := by
      rw [List.take_add_one, List.getElem?_drop, List.getElem?_eq_getElem (by omega)]
      rfl
    have len : ((p.drop off).take k).length = k := by simp; omega
    have covered : ofBytes ((p.drop off).take k) + 256 ^ k * (p[off + k].toNat + 256 * v.toNat) =
        ofBytes ((p.drop off).take (k + 1)) + 256 ^ (k + 1) * v.toNat := by
      rw [top, ofBytes_snoc, len, pow_succ]
      ring
    rw [List.range_succ, List.reverse_append, List.reverse_singleton, List.singleton_append,
      List.foldlM_cons, byteAt_of_lt (show off + k < p.length by omega)]
    rw [← covered, ← step]
    exact ih _ (by omega) (by omega) next

theorem getU64le_spec {p : Bytes} {off : Nat} (h : off + 8 ≤ p.length) :
    getU64le p off = .ok (UInt64.ofNat (field p off 8)) := by
  have loop := getU64le_loop 8 0 h (by omega) (by simp)
  rw [UInt64.toNat_zero, Nat.mul_zero, Nat.add_zero] at loop
  exact loop

end Readers

end IpcRelay
