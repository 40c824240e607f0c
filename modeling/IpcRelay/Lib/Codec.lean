import IpcRelay.Lib.LittleEndian

/-!
# Codecs of fixed width

A codec writes each value as the same number of bytes and reads any such number
of bytes as a value; the two are inverse. Codecs of records and arrays are put
together from those of their fields (`pair`, `vec`, `iso`), and `readAt` is what a
codec reads at an offset of a larger string.
-/

structure Codec (α : Type) where
  width : Nat
  put : α → List UInt8
  get : List UInt8 → α
  length_put : ∀ a, (put a).length = width
  get_put : ∀ a, get (put a) = a
  put_get : ∀ b, b.length = width → put (get b) = b

namespace Codec

variable {α β : Type}

/-- The value at an offset. -/
def readAt (c : Codec α) (b : List UInt8) (off : Nat) : α := c.get ((b.drop off).take c.width)

/-- One value behind the other. -/
def pair (c : Codec α) (d : Codec β) : Codec (α × β) where
  width := c.width + d.width
  put p := c.put p.1 ++ d.put p.2
  get b := (c.get (b.take c.width), d.get (b.drop c.width))
  length_put p := by rw [List.length_append, c.length_put, d.length_put]
  get_put p := by
    have length := c.length_put p.1
    rw [← length, List.take_left, List.drop_left, c.get_put, d.get_put]
  put_get b length := by
    have first : (b.take c.width).length = c.width := by rw [List.length_take, length]; omega
    have second : (b.drop c.width).length = d.width := by rw [List.length_drop, length]; omega
    rw [c.put_get _ first, d.put_get _ second, List.take_append_drop]

/-- The same bytes for another type. -/
def iso (c : Codec α) (e : α ≃ β) : Codec β where
  width := c.width
  put b := c.put (e.symm b)
  get bs := e (c.get bs)
  length_put b := c.length_put _
  get_put b := by rw [c.get_put, e.apply_symm_apply]
  put_get bs length := by rw [e.symm_apply_apply, c.put_get bs length]

/-- No bytes. -/
def unit : Codec (List.Vector α 0) where
  width := 0
  put _ := []
  get _ := List.Vector.nil
  length_put _ := rfl
  get_put v := (List.Vector.eq_nil v).symm
  put_get _ empty := (List.eq_nil_of_length_eq_zero empty).symm

/-- The first element of an array and the others. -/
def uncons (α : Type) (n : Nat) : α × List.Vector α n ≃ List.Vector α (n + 1) where
  toFun p := p.1 ::ᵥ p.2
  invFun v := (v.head, v.tail)
  left_inv _ := rfl
  right_inv v := List.Vector.cons_head_tail v

/-- An array. -/
def vec (c : Codec α) : (n : Nat) → Codec (List.Vector α n)
  | 0 => unit
  | n + 1 => (c.pair (c.vec n)).iso (uncons α n)

/-- The numbers of `w` bytes, least significant first. -/
def number (w : Nat) (ofNat : Nat → α) (toNat : α → Nat) (lt : ∀ a, toNat a < 256 ^ w) (ofNat_toNat : ∀ a, ofNat (toNat a) = a)
    (toNat_ofNat : ∀ n, n < 256 ^ w → toNat (ofNat n) = n) : Codec α where
  width := w
  put a := LittleEndian.toBytes w (toNat a)
  get b := ofNat (LittleEndian.ofBytes b)
  length_put a := LittleEndian.length_toBytes w _
  get_put a := by rw [LittleEndian.ofBytes_toBytes (lt a), ofNat_toNat]
  put_get b length := by
    have bound := LittleEndian.ofBytes_lt b
    rw [length] at bound
    rw [toNat_ofNat _ bound, ← length, LittleEndian.toBytes_ofBytes]

variable {c : Codec α} {d : Codec β} {b : List UInt8} {off n : Nat}

theorem readAt_pair : (c.pair d).readAt b off = (c.readAt b off, d.readAt b (off + c.width)) := by
  have first : ((b.drop off).take (c.width + d.width)).take c.width = (b.drop off).take c.width := by
    rw [List.take_take, Nat.min_eq_left (by omega)]
  have second : ((b.drop off).take (c.width + d.width)).drop c.width = (b.drop (off + c.width)).take d.width := by
    rw [List.drop_take, List.drop_drop, Nat.add_sub_cancel_left]
  unfold readAt pair
  simp only [first, second]

theorem readAt_iso (e : α ≃ β) : (c.iso e).readAt b off = e (c.readAt b off) := rfl

theorem readAt_vec : (c.vec (n + 1)).readAt b off = c.readAt b off ::ᵥ (c.vec n).readAt b (off + c.width) := by
  change ((c.pair (c.vec n)).iso (uncons α n)).readAt b off = _
  rw [readAt_iso, readAt_pair]
  rfl

theorem put_vec (c : Codec α) (v : List.Vector α n) : (c.vec n).put v = v.toList.flatMap c.put := by
  induction n with
  | zero => rw [List.Vector.eq_nil v]; rfl
  | succ n ih =>
    change c.put v.head ++ (c.vec n).put v.tail = _
    rw [ih v.tail]
    conv_rhs => rw [← List.Vector.cons_head_tail v, List.Vector.toList_cons, List.flatMap_cons]

/-- What was written behind other bytes is read from there. -/
theorem readAt_put (a : α) (pre post : List UInt8) : c.readAt (pre ++ (c.put a ++ post)) pre.length = a := by
  unfold readAt
  rw [List.drop_left, ← c.length_put a, List.take_left, c.get_put]

/-- What is read at an offset is written as it stands there. -/
theorem put_readAt (fits : off + c.width ≤ b.length) : c.put (c.readAt b off) = (b.drop off).take c.width := by
  refine c.put_get _ ?_
  rw [List.length_take, List.length_drop]
  omega

end Codec
