import IpcRelay.Common.Config
import IpcRelay.Lib.Machine

/-!
# WebSocket primitives (`tools/ctl/backend/websocket.cpp`)

The handshake key with the two functions it needs, and the frame codec.
`wsParseFrame` reads the buffer byte by byte and may fault; it never does
(`parseFrame_total`), and an answer other than "need more" stands when more
bytes come (`parseFrame_append`).
-/

namespace IpcRelay.Ctl

section Handshake

def rotl (v n : UInt32) : UInt32 := (v <<< n) ||| (v >>> (32 - n))

/-- The five words of the hash. -/
structure Sha1 where
  a : UInt32
  b : UInt32
  c : UInt32
  d : UInt32
  e : UInt32
  deriving DecidableEq, Repr

/-- The padded message. -/
def sha1Padded (data : Bytes) : Bytes :=
  let m := data ++ [0x80]
  let bitLen := UInt64.ofNat (data.length * 8)
  m ++ List.replicate ((120 - m.length % 64) % 64) 0 ++
    (List.range 8).map fun i => (bitLen >>> (56 - 8 * UInt64.ofNat i)).toUInt8

/-- The word from the byte `4 * i` of a block on. -/
def sha1Word (block : Bytes) (i : Nat) : UInt32 :=
  let p := fun j => (block.getD (4 * i + j) 0).toUInt32
  (p 0 <<< 24) ||| (p 1 <<< 16) ||| (p 2 <<< 8) ||| p 3

/-- The 80 words of a block. -/
def sha1Schedule (block : Bytes) : Array UInt32 :=
  (List.range' 16 64).foldl
    (fun w i => w.push (rotl (w.getD (i - 3) 0 ^^^ w.getD (i - 8) 0 ^^^ w.getD (i - 14) 0 ^^^ w.getD (i - 16) 0) 1))
    ((List.range 16).map (sha1Word block)).toArray

def sha1Round (w : Array UInt32) (h : Sha1) (i : Nat) : Sha1 :=
  let (f, k) : UInt32 × UInt32 :=
    if i < 20 then ((h.b &&& h.c) ||| (~~~h.b &&& h.d), 0x5A827999)
    else if i < 40 then (h.b ^^^ h.c ^^^ h.d, 0x6ED9EBA1)
    else if i < 60 then ((h.b &&& h.c) ||| (h.b &&& h.d) ||| (h.c &&& h.d), 0x8F1BBCDC)
    else (h.b ^^^ h.c ^^^ h.d, 0xCA62C1D6)
  { a := rotl h.a 5 + f + h.e + k + w.getD i 0, b := h.a, c := rotl h.b 30, d := h.c, e := h.d }

def sha1Block (h : Sha1) (block : Bytes) : Sha1 :=
  let r := (List.range 80).foldl (sha1Round (sha1Schedule block)) h
  { a := h.a + r.a, b := h.b + r.b, c := h.c + r.c, d := h.d + r.d, e := h.e + r.e }

def sha1 (data : Bytes) : Bytes :=
  let m := sha1Padded data
  let h := (List.range (m.length / 64)).foldl (fun h i => sha1Block h ((m.drop (64 * i)).take 64))
    ⟨0x67452301, 0xEFCDAB89, 0x98BADCFE, 0x10325476, 0xC3D2E1F0⟩
  [h.a, h.b, h.c, h.d, h.e].flatMap fun (v : UInt32) => [(v >>> 24).toUInt8, (v >>> 16).toUInt8, (v >>> 8).toUInt8, v.toUInt8]

/-- `kTable[v & 63]`. -/
def base64Digit (v : UInt32) : UInt8 :=
  (str "ABCDEFGHIJKLMNOPQRSTUVWXYZabcdefghijklmnopqrstuvwxyz0123456789+/").getD (v &&& 63).toNat 0

def base64Encode : Bytes → Bytes
  | [] => []
  | [x] =>
    let v := x.toUInt32 <<< 16
    [base64Digit (v >>> 18), base64Digit (v >>> 12), 61, 61]
  | [x, y] =>
    let v := x.toUInt32 <<< 16 ||| y.toUInt32 <<< 8
    [base64Digit (v >>> 18), base64Digit (v >>> 12), base64Digit (v >>> 6), 61]
  | x :: y :: z :: rest =>
    let v := x.toUInt32 <<< 16 ||| y.toUInt32 <<< 8 ||| z.toUInt32
    [base64Digit (v >>> 18), base64Digit (v >>> 12), base64Digit (v >>> 6), base64Digit v] ++ base64Encode rest

def websocketAcceptKey (clientKey : Bytes) : Bytes :=
  base64Encode (sha1 (clientKey ++ str "258EAFA5-E914-47DA-95CA-C5AB0DC85B11"))

end Handshake

namespace WsOpcode

def kContinuation : UInt8 := 0x0
def kText : UInt8 := 0x1
def kBinary : UInt8 := 0x2
def kClose : UInt8 := 0x8
def kPing : UInt8 := 0x9
def kPong : UInt8 := 0xA

end WsOpcode

namespace WsClose

def kGoingAway : UInt16 := 1001
def kProtocolError : UInt16 := 1002
def kUnsupportedData : UInt16 := 1003
def kTooBig : UInt16 := 1009

end WsClose

open WsOpcode

structure WsFrame where
  fin : Bool := false
  opcode : UInt8 := 0
  /-- Unmasked. -/
  payload : Bytes := []
  deriving DecidableEq, Repr

/-- The outcome of `ws_parse_frame` with what it returns. -/
inductive WsParse where
  | needMore
  | frame (f : WsFrame) (consumed : Nat)
  | error (text : Bytes)
  deriving DecidableEq, Repr

/-- The opcodes of the `switch`. -/
def knownOpcodes : List UInt8 := [kContinuation, kText, kBinary, kClose, kPing, kPong]

/-- The big-endian number of `n` bytes from `pos` on. -/
def readLength (buf : Bytes) (pos : Nat) : Nat → Exec Nat
  | 0 => .ok 0
  | n + 1 => do
    let high ← readLength buf pos n
    let b ← byteAt buf (pos + n)
    .ok (high <<< 8 ||| b.toNat)

/-- The payload length and the position after it; `none` if the buffer ends before. -/
def parseLength (buf : Bytes) (b1 : UInt8) : Exec (Option (Nat × Nat)) :=
  let short := (b1 &&& 0x7F).toNat
  if short = 126 then
    if buf.length < 4 then .ok none
    else do .ok (some (← readLength buf 2 2, 4))
  else if short = 127 then
    if buf.length < 10 then .ok none
    else do .ok (some (← readLength buf 2 8, 10))
  else .ok (some (short, 2))

/-- The loop that unmasks `n` bytes, from the `i`-th on. -/
def unmask (buf : Bytes) (pos maskPos : Nat) : Nat → Nat → Exec Bytes
  | 0, _ => .ok []
  | n + 1, i => do
    let b ← byteAt buf (pos + i)
    let m ← byteAt buf (maskPos + i % 4)
    .ok ((b ^^^ m) :: (← unmask buf pos maskPos n (i + 1)))

/-- `ws_parse_frame`. -/
def wsParseFrame (buf : Bytes) (maxPayload : Nat) : Exec WsParse :=
  if buf.length < 2 then .ok .needMore
  else do
    let b0 ← byteAt buf 0
    let b1 ← byteAt buf 1
    let fin := b0 &&& 0x80 ≠ 0
    let opcode := b0 &&& 0x0F
    if b0 &&& 0x70 ≠ 0 then .ok (.error (str "reserved bits set (no extensions negotiated)"))
    else if opcode ∉ knownOpcodes then .ok (.error (str "unknown opcode " ++ numText opcode.toNat))
    else if b1 &&& 0x80 = 0 then .ok (.error (str "client frame is not masked"))
    else
      match ← parseLength buf b1 with
      | none => .ok .needMore
      | some (payloadLen, pos) =>
        if opcode &&& 0x08 ≠ 0 ∧ (¬ fin ∨ payloadLen > 125) then .ok (.error (str "invalid control frame"))
        else if payloadLen > maxPayload then
          .ok (.error (str "frame payload of " ++ numText payloadLen ++ str " bytes exceeds limit"))
        else if buf.length < pos + 4 then .ok .needMore
        else if buf.length - (pos + 4) < payloadLen then .ok .needMore
        else do
          let payload ← unmask buf (pos + 4) pos payloadLen 0
          .ok (.frame { fin := fin, opcode := opcode, payload := payload } (pos + 4 + payloadLen))

/-- The length field of a frame without a mask. -/
def lengthField (n : Nat) : Bytes :=
  if n < 126 then [UInt8.ofNat n]
  else if n ≤ 0xFFFF then [126, UInt8.ofNat (n >>> 8), UInt8.ofNat n]
  else 127 :: (List.range 8).map fun i => (UInt64.ofNat n >>> (56 - 8 * UInt64.ofNat i)).toUInt8

/-- `ws_encode_frame`. -/
def wsEncodeFrame (opcode : UInt8) (payload : Bytes) : Bytes :=
  (0x80 ||| (opcode &&& 0x0F)) :: lengthField payload.length ++ payload

/-- `ws_close_payload`. -/
def wsClosePayload (code : UInt16) (reason : Bytes) : Bytes := (code >>> 8).toUInt8 :: code.toUInt8 :: reason.take 123

section Parse

variable {buf : Bytes}

theorem byteAt_append {i : Nat} (lt : i < buf.length) (more : Bytes) :
    ∃ b, byteAt buf i = .ok b ∧ byteAt (buf ++ more) i = .ok b := by
  refine ⟨buf[i], byteAt_of_lt lt, ?_⟩
  rw [byteAt, List.getElem?_append_left lt, List.getElem?_eq_getElem lt]

theorem readLength_append (more : Bytes) (pos n : Nat) (fits : pos + n ≤ buf.length) :
    ∃ r, readLength buf pos n = .ok r ∧ readLength (buf ++ more) pos n = .ok r := by
  induction n with
  | zero => exact ⟨0, rfl, rfl⟩
  | succ n ih =>
    obtain ⟨high, ran, ran'⟩ := ih (by omega)
    obtain ⟨b, hb, hb'⟩ := byteAt_append (show pos + n < buf.length by omega) more
    refine ⟨high <<< 8 ||| b.toNat, ?_, ?_⟩
    · simp only [readLength, ran, hb, bind, Except.bind]
    · simp only [readLength, ran', hb', bind, Except.bind]

/-- The length field is read within the bytes that are there. -/
theorem parseLength_append (more : Bytes) (b1 : UInt8) (two : 2 ≤ buf.length) :
    ∃ r, parseLength buf b1 = .ok r ∧
      ∀ n pos, r = some (n, pos) → parseLength (buf ++ more) b1 = .ok r ∧ 2 ≤ pos ∧ pos ≤ buf.length := by
  unfold parseLength
  rw [List.length_append]
  simp only
  split
  · split
    · exact ⟨none, rfl, fun _ _ h => by cases h⟩
    · obtain ⟨r, ran, ran'⟩ := readLength_append more 2 2 (show 2 + 2 ≤ buf.length by omega)
      refine ⟨some (r, 4), by rw [ran]; rfl, ?_⟩
      intro n pos h
      cases h
      rw [if_neg (by omega), ran']
      exact ⟨rfl, by omega, by omega⟩
  · split
    · split
      · exact ⟨none, rfl, fun _ _ h => by cases h⟩
      · obtain ⟨r, ran, ran'⟩ := readLength_append more 2 8 (show 2 + 8 ≤ buf.length by omega)
        refine ⟨some (r, 10), by rw [ran]; rfl, ?_⟩
        intro n pos h
        cases h
        rw [if_neg (by omega), ran']
        exact ⟨rfl, by omega, by omega⟩
    · refine ⟨_, rfl, ?_⟩
      intro n pos h
      cases h
      exact ⟨rfl, Nat.le_refl 2, two⟩

theorem unmask_append (more : Bytes) (pos : Nat) {maskPos : Nat} (mask : maskPos + 4 ≤ buf.length) (n : Nat) :
    ∀ i, pos + i + n ≤ buf.length →
      ∃ r, unmask buf pos maskPos n i = .ok r ∧ unmask (buf ++ more) pos maskPos n i = .ok r ∧ r.length = n := by
  induction n with
  | zero => exact fun i _ => ⟨[], rfl, rfl, rfl⟩
  | succ n ih =>
    intro i fits
    obtain ⟨b, hb, hb'⟩ := byteAt_append (show pos + i < buf.length by omega) more
    obtain ⟨m, hm, hm'⟩ := byteAt_append (show maskPos + i % 4 < buf.length by omega) more
    obtain ⟨rest, ran, ran', len⟩ := ih (i + 1) (by omega)
    refine ⟨(b ^^^ m) :: rest, ?_, ?_, by simp [len]⟩
    · simp only [unmask, hb, hm, ran, bind, Except.bind]
    · simp only [unmask, hb', hm', ran', bind, Except.bind]

/-- Whatever the bytes are, the parser stays within them; an answer other than "need more" is a
frame that they hold or an error, and stands when more bytes come. -/
theorem parseFrame_append (buf more : Bytes) (maxPayload : Nat) : ∃ r, wsParseFrame buf maxPayload = .ok r ∧
    (r ≠ .needMore → wsParseFrame (buf ++ more) maxPayload = .ok r) ∧
    ∀ f consumed, r = .frame f consumed → consumed ≤ buf.length ∧ 6 ≤ consumed ∧ f.opcode ∈ knownOpcodes ∧
      f.payload.length ≤ maxPayload ∧ (f.opcode &&& 0x08 ≠ 0 → f.fin = true ∧ f.payload.length ≤ 125) := by
  unfold wsParseFrame
  rw [List.length_append]
  split
  · exact ⟨.needMore, rfl, fun h => absurd rfl h, fun _ _ h => by cases h⟩
  · obtain ⟨b0, hb0, hb0'⟩ := byteAt_append (show 0 < buf.length by omega) more
    obtain ⟨b1, hb1, hb1'⟩ := byteAt_append (show 1 < buf.length by omega) more
    rw [if_neg (show ¬ buf.length + more.length < 2 by omega)]
    simp only [hb0, hb1, hb0', hb1', bind, Except.bind]
    split
    · exact ⟨_, rfl, fun _ => rfl, fun _ _ h => by cases h⟩
    · split
      · exact ⟨_, rfl, fun _ => rfl, fun _ _ h => by cases h⟩
      next known =>
        split
        · exact ⟨_, rfl, fun _ => rfl, fun _ _ h => by cases h⟩
        · obtain ⟨r, ran, stable⟩ := parseLength_append more b1 (show 2 ≤ buf.length by omega)
          simp only [ran]
          cases r with
          | none => exact ⟨.needMore, rfl, fun h => absurd rfl h, fun _ _ h => by cases h⟩
          | some r =>
            obtain ⟨n, pos⟩ := r
            obtain ⟨ran', low, high⟩ := stable n pos rfl
            simp only [ran']
            split
            · exact ⟨_, rfl, fun _ => rfl, fun _ _ h => by cases h⟩
            next control =>
              split
              · exact ⟨_, rfl, fun _ => rfl, fun _ _ h => by cases h⟩
              next small =>
                split
                · exact ⟨.needMore, rfl, fun h => absurd rfl h, fun _ _ h => by cases h⟩
                · split
                  · exact ⟨.needMore, rfl, fun h => absurd rfl h, fun _ _ h => by cases h⟩
                  · obtain ⟨payload, un, un', len⟩ :=
                      unmask_append more (pos + 4) (show pos + 4 ≤ buf.length by omega) n 0 (by omega)
                    refine ⟨_, by rw [un], ?_, ?_⟩
                    · intro _
                      rw [if_neg (by omega), if_neg (by omega), un']
                    · intro f consumed h
                      cases h
                      refine ⟨by omega, by omega, ?_, by show payload.length ≤ _; omega, ?_⟩
                      · simpa using known
                      · intro high
                        obtain ⟨fin, short⟩ := not_or.1 fun bad => control ⟨high, bad⟩
                        refine ⟨by simpa using fin, ?_⟩
                        show payload.length ≤ 125
                        omega

end Parse

end IpcRelay.Ctl
