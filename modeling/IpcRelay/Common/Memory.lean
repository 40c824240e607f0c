import IpcRelay.Lib.Overlay

/-!
# Bytes, memory accesses and faults

The program works on byte buffers through raw pointers. Here a buffer is the
list of its bytes and every access is checked: `Fault.outOfRange` is an access
outside the buffer (undefined behaviour in the program), `Fault.diverges` a
loop that never ends. `size_t` values of containers are natural numbers.
-/

namespace IpcRelay

/-- A byte buffer, also the contents of a `std::string`. -/
abbrev Bytes := List UInt8

instance lawfulBEqBytes : LawfulBEq Bytes := inferInstance

/-- What can go wrong in code that indexes raw memory and loops. -/
inductive Fault where
  | outOfRange
  | diverges
  deriving DecidableEq, Repr

abbrev Exec := Except Fault

/-- The bytes of a string literal. -/
def str (s : String) : Bytes := s.toList.map fun c => UInt8.ofNat c.toNat

/-- `p[i]`. -/
def byteAt (p : Bytes) (i : Nat) : Exec UInt8 :=
  match p[i]? with
  | some b => .ok b
  | none => .error .outOfRange

/-- `memcpy(dst + off, src, n)`: the range written and the range read must exist. -/
def memcpy (dst : Bytes) (off : Nat) (src : Bytes) (n : Nat) : Exec Bytes :=
  if off + n ≤ dst.length ∧ n ≤ src.length then .ok (Overlay.splice dst off (src.take n))
  else .error .outOfRange

/-- The `n` bytes from `off` on, as a system call reads them through a pointer. -/
def slice (p : Bytes) (off n : Nat) : Exec Bytes :=
  if off + n ≤ p.length then .ok ((p.drop off).take n) else .error .outOfRange

theorem byteAt_of_lt {p : Bytes} {i : Nat} (h : i < p.length) : byteAt p i = .ok p[i] := by
  simp [byteAt, h]

theorem memcpy_of_fits {dst src : Bytes} {off n : Nat} (h : off + n ≤ dst.length) (hn : n ≤ src.length) :
    memcpy dst off src n = .ok (Overlay.splice dst off (src.take n)) := if_pos ⟨h, hn⟩

end IpcRelay
