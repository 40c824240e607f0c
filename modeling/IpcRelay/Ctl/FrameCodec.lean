import IpcRelay.Ctl.WebSocket
import IpcRelay.Lib.BigEndian

/-!
# The frame codec, there and back

A client writes a frame as `ws_encode_frame` does, but with a mask
(`maskedFrame`), and without the FIN bit where more pieces follow
(`clientFrame`). The parser reads back what was written, and needs more of every
part of it.
-/

namespace IpcRelay.Ctl

open WsOpcode Machine

section Lengths

variable {n : Nat}

theorem shifted_byte {k : Nat} (fits : n < 2 ^ 64) (le : k ≤ 56) :
    (UInt64.ofNat n >>> UInt64.ofNat k).toUInt8 = UInt8.ofNat (n / 2 ^ k) := by
  apply UInt8.toNat.inj
  rw [UInt64.toNat_toUInt8, UInt64.toNat_shiftRight, UInt64.toNat_ofNat', UInt64.toNat_ofNat', UInt8.toNat_ofNat',
    Nat.mod_eq_of_lt fits, Nat.mod_eq_of_lt (show k < 2 ^ 64 by omega), Nat.mod_eq_of_lt (show k < 64 by omega),
    Nat.shiftRight_eq_div_pow]

/-- The length field: one byte, or a mark and two or eight. -/
theorem lengthField_eq (fits : n < 2 ^ 64) : lengthField n =
    if n < 126 then [UInt8.ofNat n] else if n ≤ 0xFFFF then 126 :: bigEndianBytes 2 n else 127 :: bigEndianBytes 8 n := by
  unfold lengthField
  split
  · rfl
  · split
    · simp only [bigEndianBytes, Nat.shiftRight_eq_div_pow]
      rfl
    · have bytes : (List.range 8).map (fun i => (UInt64.ofNat n >>> (56 - 8 * UInt64.ofNat i)).toUInt8) =
          [UInt8.ofNat (n / 2 ^ 56), UInt8.ofNat (n / 2 ^ 48), UInt8.ofNat (n / 2 ^ 40), UInt8.ofNat (n / 2 ^ 32),
            UInt8.ofNat (n / 2 ^ 24), UInt8.ofNat (n / 2 ^ 16), UInt8.ofNat (n / 2 ^ 8), UInt8.ofNat (n / 2 ^ 0)] := by
        simp only [← shifted_byte fits (show 56 ≤ 56 by decide), ← shifted_byte fits (show 48 ≤ 56 by decide),
          ← shifted_byte fits (show 40 ≤ 56 by decide), ← shifted_byte fits (show 32 ≤ 56 by decide),
          ← shifted_byte fits (show 24 ≤ 56 by decide), ← shifted_byte fits (show 16 ≤ 56 by decide),
          ← shifted_byte fits (show 8 ≤ 56 by decide), ← shifted_byte fits (show 0 ≤ 56 by decide)]
        rfl
      rw [bytes]
      simp only [bigEndianBytes, Nat.div_div_eq_div_mul, List.nil_append, List.cons_append]
      norm_num

/-- The number is read where it stands. -/
theorem readLength_eq (pre bytes post : Bytes) : readLength (pre ++ (bytes ++ post)) pre.length bytes.length = .ok (bigEndian bytes) := by
  induction bytes using List.reverseRecOn generalizing post with
  | nil => rfl
  | append_singleton bytes b ih =>
    have high := ih (b :: post)
    have low : byteAt (pre ++ (bytes ++ b :: post)) (pre.length + bytes.length) = .ok b := by
      unfold byteAt
      rw [List.getElem?_append_right (by omega), List.getElem?_append_right (by omega)]
      simp
    rw [List.append_assoc, List.singleton_append, List.length_append]
    simp only [List.length_cons, List.length_nil, Nat.zero_add, readLength, high, low, ok_bind]
    rw [bigEndian_concat, Nat.shiftLeft_eq, Nat.mul_comm]
    have eight := Nat.two_pow_add_eq_or_of_lt (i := 8) b.toNat_lt (bigEndian bytes)
    rw [← eight]

/-- The payload length is read behind the first two bytes; the mark may carry the mask bit. -/
theorem parseLength_eq (b0 : UInt8) (post : Bytes) (fits : n < 2 ^ 64) :
    ∃ b field, lengthField n = b :: field ∧ b < 0x80 ∧
      parseLength (b0 :: (b ||| 0x80) :: (field ++ post)) (b ||| 0x80) = .ok (some (n, 2 + field.length)) := by
  rw [lengthField_eq fits]
  have bits : ∀ m : Fin 128, (UInt8.ofNat m ||| 0x80) &&& 0x7F = UInt8.ofNat m ∧ (UInt8.ofNat m).toNat = m := by decide +kernel
  by_cases short : n < 126
  · refine ⟨UInt8.ofNat n, [], if_pos short, ?_, ?_⟩
    · rw [UInt8.lt_iff_toNat_lt, (bits ⟨n, by omega⟩).2]
      show n < 128
      omega
    · obtain ⟨low, value⟩ := bits ⟨n, by omega⟩
      unfold parseLength
      simp only at low value
      rw [low, value]
      simp only
      rw [if_neg (by omega), if_neg (by omega)]
      rfl
  · rw [if_neg short]
    by_cases medium : n ≤ 0xFFFF
    · refine ⟨126, bigEndianBytes 2 n, if_pos medium, by decide, ?_⟩
      have read := readLength_eq [b0, (126 : UInt8) ||| 0x80] (bigEndianBytes 2 n) post
      rw [length_bigEndianBytes, bigEndian_bytes (by omega)] at read
      have value : (((126 : UInt8) ||| 0x80) &&& 0x7F).toNat = 126 := by decide
      unfold parseLength
      simp only [value, if_true]
      rw [if_neg (by simp), length_bigEndianBytes]
      exact congrArg (fun r : Exec Nat => r >>= fun n => .ok (some (n, 4))) read
    · refine ⟨127, bigEndianBytes 8 n, if_neg medium, by decide, ?_⟩
      have read := readLength_eq [b0, (127 : UInt8) ||| 0x80] (bigEndianBytes 8 n) post
      rw [length_bigEndianBytes, bigEndian_bytes (by omega)] at read
      have value : (((127 : UInt8) ||| 0x80) &&& 0x7F).toNat = 127 := by decide
      unfold parseLength
      simp only [value]
      rw [if_neg (by decide), if_pos trivial, if_neg (by simp), length_bigEndianBytes]
      exact congrArg (fun r : Exec Nat => r >>= fun n => .ok (some (n, 10))) read

end Lengths

section Frames

/-- A payload under a mask. -/
def xorMask (mask payload : Bytes) : Bytes := payload.mapIdx fun i b => b ^^^ mask.getD (i % 4) 0

/-- A client's frame: what `ws_encode_frame` writes, with the mask bit set and the mask behind the length field, the
payload under the mask, and the FIN bit taken off a piece. -/
def clientFrame (f : WsFrame) (mask : Bytes) : Bytes :=
  let frame := wsEncodeFrame f.opcode f.payload
  let header := (frame.take (frame.length - f.payload.length)).modify 1 fun b => b ||| 0x80
  (header.modify 0 fun b => if f.fin then b else b &&& 0x7F) ++ mask ++ xorMask mask f.payload

variable {f : WsFrame} {mask : Bytes} {maxPayload : Nat}

/-- The first byte. -/
def firstByte (f : WsFrame) : UInt8 := if f.fin then 0x80 ||| f.opcode &&& 0x0F else (0x80 ||| f.opcode &&& 0x0F) &&& 0x7F

theorem clientFrame_eq {b : UInt8} {field : Bytes} (length : lengthField f.payload.length = b :: field) :
    clientFrame f mask = firstByte f :: (b ||| 0x80) :: (field ++ (mask ++ xorMask mask f.payload)) := by
  have header : (wsEncodeFrame f.opcode f.payload).take ((wsEncodeFrame f.opcode f.payload).length - f.payload.length) =
      (0x80 ||| f.opcode &&& 0x0F) :: b :: field := by
    unfold wsEncodeFrame
    rw [length, List.length_append, Nat.add_sub_cancel, List.take_left]
  unfold clientFrame
  simp only [header, List.append_assoc]
  rfl

theorem length_xorMask (mask payload : Bytes) : (xorMask mask payload).length = payload.length := List.length_mapIdx

/-- The mask is taken off again. -/
theorem unmask_eq (pre post payload : Bytes) (four : mask.length = 4) (n : Nat) : ∀ i, i + n = payload.length →
    unmask (pre ++ (mask ++ (xorMask mask payload ++ post))) (pre.length + 4) pre.length n i = .ok (payload.drop i) := by
  induction n with
  | zero =>
    intro i all
    rw [List.drop_eq_nil_of_le (by omega)]
    rfl
  | succ n ih =>
    intro i all
    obtain ⟨b, byte⟩ : ∃ b, payload[i]? = some b := ⟨_, List.getElem?_eq_getElem (by omega)⟩
    obtain ⟨m, key⟩ : ∃ m, mask[i % 4]? = some m := ⟨_, List.getElem?_eq_getElem (by omega)⟩
    have masked : byteAt (pre ++ (mask ++ (xorMask mask payload ++ post))) (pre.length + 4 + i) = .ok (b ^^^ m) := by
      unfold byteAt
      rw [List.getElem?_append_right (by omega), List.getElem?_append_right (by omega),
        List.getElem?_append_left (by rw [length_xorMask]; omega),
        show pre.length + 4 + i - pre.length - mask.length = i by omega, xorMask, List.getElem?_mapIdx, byte]
      simp [List.getD, key]
    have keyed : byteAt (pre ++ (mask ++ (xorMask mask payload ++ post))) (pre.length + i % 4) = .ok m := by
      unfold byteAt
      rw [List.getElem?_append_right (by omega), List.getElem?_append_left (by omega), Nat.add_sub_cancel_left, key]
    obtain ⟨lt, rfl⟩ := List.getElem?_eq_some_iff.1 byte
    unfold unmask
    simp only [masked, keyed, ih (i + 1) (by omega), ok_bind]
    rw [UInt8.xor_assoc, UInt8.xor_self, UInt8.xor_zero, List.drop_eq_getElem_cons lt]

theorem firstByte_bits (known : f.opcode ∈ knownOpcodes) : firstByte f &&& 0x70 = 0 ∧ firstByte f &&& 0x0F = f.opcode ∧
    (firstByte f &&& 0x80 ≠ 0 ↔ f.fin = true) := by
  obtain ⟨fin, opcode, payload⟩ := f
  have every : ∀ opcode ∈ knownOpcodes, ∀ fin, firstByte ⟨fin, opcode, []⟩ &&& 0x70 = 0 ∧
      firstByte ⟨fin, opcode, []⟩ &&& 0x0F = opcode ∧ (firstByte ⟨fin, opcode, []⟩ &&& 0x80 ≠ 0 ↔ fin = true) := by
    decide +kernel
  exact every opcode known fin

/-- What a client wrote is read back, with whatever follows it. -/
theorem parseFrame_client (known : f.opcode ∈ knownOpcodes) (fits : f.payload.length ≤ maxPayload)
    (sized : f.payload.length < 2 ^ 64) (control : f.opcode &&& 0x08 ≠ 0 → f.fin ∧ f.payload.length ≤ 125)
    (four : mask.length = 4) (more : Bytes) :
    wsParseFrame (clientFrame f mask ++ more) maxPayload = .ok (.frame f (clientFrame f mask).length) := by
  obtain ⟨b, field, length, low, parsed⟩ := parseLength_eq (firstByte f)
    (mask ++ (xorMask mask f.payload ++ more)) sized
  obtain ⟨reserved, opcode, fin⟩ := firstByte_bits known
  have masked : (b ||| 0x80) &&& 0x80 ≠ 0 := by
    have every : ∀ b : Fin 256, (UInt8.ofNat b ||| 0x80) &&& 0x80 ≠ 0 := by decide +kernel
    have one := every ⟨b.toNat, b.toNat_lt⟩
    rwa [UInt8.ofNat_toNat] at one
  have buf : clientFrame f mask ++ more =
      firstByte f :: (b ||| 0x80) :: (field ++ (mask ++ (xorMask mask f.payload ++ more))) := by
    rw [clientFrame_eq length]
    simp only [List.cons_append, List.append_assoc]
  have size : (clientFrame f mask).length = 2 + field.length + 4 + f.payload.length := by
    rw [clientFrame_eq length]
    simp only [List.length_cons, List.length_append, length_xorMask, four]
    omega
  have total : (firstByte f :: (b ||| 0x80) :: (field ++ (mask ++ (xorMask mask f.payload ++ more)))).length =
      2 + field.length + 4 + f.payload.length + more.length := by
    simp only [List.length_cons, List.length_append, length_xorMask, four]
    omega
  have unmasked := unmask_eq (firstByte f :: (b ||| 0x80) :: field) more f.payload four f.payload.length 0
    (Nat.zero_add _)
  have place : (firstByte f :: (b ||| 0x80) :: field).length = 2 + field.length := by
    simp only [List.length_cons]
    omega
  rw [place] at unmasked
  rw [buf, size]
  unfold wsParseFrame
  rw [total, if_neg (by omega)]
  have first (rest : Bytes) : byteAt (firstByte f :: rest) 0 = .ok (firstByte f) := rfl
  have second (rest : Bytes) : byteAt (firstByte f :: (b ||| 0x80) :: rest) 1 = .ok (b ||| 0x80) := rfl
  simp only [first, second, ok_bind, reserved, opcode, parsed]
  rw [if_neg (by simp), if_neg (not_not.2 known), if_neg masked, if_neg, if_neg (Nat.not_lt.2 fits), if_neg (by omega),
    if_neg (by omega)]
  · rw [show firstByte f :: (b ||| 0x80) :: (field ++ (mask ++ (xorMask mask f.payload ++ more))) =
      (firstByte f :: (b ||| 0x80) :: field) ++ (mask ++ (xorMask mask f.payload ++ more)) from rfl, unmasked, ok_bind]
    have bit : decide (firstByte f &&& 0x80 ≠ 0) = f.fin := by
      rw [Bool.eq_iff_iff, decide_eq_true_iff]
      exact fin
    rw [bit]
    rfl
  · rintro ⟨high, bad⟩
    obtain ⟨final, short⟩ := control high
    rcases bad with bad | bad
    · exact bad (by simpa using fin.2 final)
    · omega

/-- A part of a frame is no frame, and no error. -/
theorem parseFrame_prefix (known : f.opcode ∈ knownOpcodes) (fits : f.payload.length ≤ maxPayload)
    (sized : f.payload.length < 2 ^ 64) (control : f.opcode &&& 0x08 ≠ 0 → f.fin ∧ f.payload.length ≤ 125)
    (four : mask.length = 4) {part : Bytes} (begins : part <+: clientFrame f mask) (strict : part ≠ clientFrame f mask) :
    wsParseFrame part maxPayload = .ok .needMore := by
  obtain ⟨rest, whole⟩ := begins
  obtain ⟨r, ran, stands, inside⟩ := parseFrame_append part rest maxPayload
  by_cases more : r = .needMore
  · rw [ran, more]
  · have read := parseFrame_client known fits sized control four []
    rw [List.append_nil, ← whole, stands more] at read
    cases read
    have short := (inside _ _ rfl).1
    have all := @List.length_append _ part rest
    have ended : rest = [] := List.eq_nil_of_length_eq_zero (by omega)
    rw [ended, List.append_nil] at whole
    exact absurd whole strict

/-- The codec: a frame is read back whatever follows it, and any part of it waits for the rest. -/
theorem frame_codec (maxPayload : UInt64) {opcode : UInt8} {payload mask : Bytes} (known : opcode ∈ knownOpcodes)
    (fits : payload.length ≤ maxPayload.toNat) (control : opcode &&& 0x08 ≠ 0 → payload.length ≤ 125)
    (four : mask.length = 4) :
    let frame := clientFrame { fin := true, opcode := opcode, payload := payload } mask
    (∀ more, wsParseFrame (frame ++ more) maxPayload.toNat =
      .ok (.frame { fin := true, opcode := opcode, payload := payload } frame.length)) ∧
    ∀ part, part <+: frame → part ≠ frame → wsParseFrame part maxPayload.toNat = .ok .needMore := by
  have sized : payload.length < 2 ^ 64 := Nat.lt_of_le_of_lt fits maxPayload.toNat_lt
  exact ⟨parseFrame_client known fits sized (fun high => ⟨rfl, control high⟩) four,
    fun part begins strict => parseFrame_prefix known fits sized (fun high => ⟨rfl, control high⟩) four begins strict⟩

/-- A binary frame whose length takes 16 bits. -/
theorem frame_codec_lab :
    let payload := (List.range 300).map UInt8.ofNat
    let frame := clientFrame { fin := true, opcode := kBinary, payload := payload } [1, 2, 3, 4]
    wsParseFrame (frame ++ str "more") 65536 = .ok (.frame { fin := true, opcode := kBinary, payload := payload } 308) ∧
      wsParseFrame (frame.take 3) 65536 = .ok .needMore ∧ wsParseFrame (frame.take 307) 65536 = .ok .needMore := by
  have length : (clientFrame { fin := true, opcode := kBinary, payload := (List.range 300).map UInt8.ofNat }
      [1, 2, 3, 4]).length = 308 := by decide +kernel
  obtain ⟨whole, part⟩ := @frame_codec 65536 kBinary ((List.range 300).map UInt8.ofNat) [1, 2, 3, 4] (by decide)
    (by decide +kernel) (by decide) rfl
  have cut (n : Nat) (less : n < 308) : (clientFrame { fin := true, opcode := kBinary, payload := (List.range 300).map UInt8.ofNat }
      [1, 2, 3, 4]).take n ≠ clientFrame { fin := true, opcode := kBinary, payload := (List.range 300).map UInt8.ofNat }
      [1, 2, 3, 4] := by
    intro same
    have short := congrArg List.length same
    rw [List.length_take, length] at short
    omega
  have found := whole (str "more")
  rw [length] at found
  exact ⟨found, part _ (List.take_prefix ..) (cut 3 (by omega)), part _ (List.take_prefix ..) (cut 307 (by omega))⟩

end Frames

end IpcRelay.Ctl
