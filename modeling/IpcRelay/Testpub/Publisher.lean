import IpcRelay.Bridge.Service
import IpcRelay.Testpub.Telemetry

/-!
# The messages of the test publisher (`tools/testpub/main.cpp`)

A message is a header, the telemetry of the channel and a filler, behind the
topic in one frame or in a frame of its own. The buffer is used again for every
message; `buildPayload_eq` says that nothing of it is left. The bridge relays
both framings as the topic and the message behind it (`relayed_message`).
-/

namespace IpcRelay.Testpub

open Overlay

section Build

/-- `resize` of a vector. -/
def resize (b : Bytes) (n : Nat) : Bytes := b.take n ++ List.replicate (n - b.length) 0

def headerStores (p : Nat) (sent : UInt64) (size : Nat) (type : UInt16) (dataLen : Nat) : List (Patch UInt8) := [
  ⟨0, putU32le kTestMagic⟩,
  ⟨4, putU32le (UInt32.ofNat p)⟩,
  ⟨8, putU64le sent⟩,
  ⟨16, putU32le (UInt32.ofNat size)⟩,
  ⟨20, putU16le type⟩,
  ⟨22, putU16le (UInt16.ofNat dataLen)⟩]

/-- The byte at `i` of the filler. -/
def fillerByte (sent : UInt64) (i : Nat) : UInt8 := ((sent + UInt64.ofNat i) &&& 0xFF).toUInt8

/-- The loop that writes the filler through `h`, for the `n` bytes from `i` on. -/
def fill (sent : UInt64) (h : Nat) : Nat → Nat → Bytes → Exec Bytes
  | 0, _, out => .ok out
  | n + 1, i, out => do
    let out ← memcpy out (h + i) [fillerByte sent i] 1
    fill sent h n (i + 1) out

/-- The payload of one message, built in the buffer `old`: the data `d` of endpoint `p`, and `size` from the distribution. -/
def buildPayload (old topic : Bytes) (multipart : Bool) (p : Nat) (sent : UInt64) (size : Nat) (d : Telemetry) : Exec Bytes := do
  let dataLen := dataSize d.type
  let body := max size (kTestHeaderSize + dataLen)
  let pre := if multipart then 0 else topic.length
  let payload := resize old (pre + body)
  let payload ← if pre ≠ 0 then memcpy payload 0 topic pre else .ok payload
  let payload ← store payload pre (headerStores p sent payload.length d.type dataLen)
  let payload ← d.encode payload (pre + kTestHeaderSize)
  fill sent pre (body - (kTestHeaderSize + dataLen)) (kTestHeaderSize + dataLen) payload

/-- The frames of a message, as `zmq_send` is called. -/
def frames (topic : Bytes) (multipart : Bool) (payload : Bytes) : List Bytes :=
  if multipart then [topic, payload] else [payload]

/-- How the frames of one message arrive at a socket, each after any number of interrupted calls. -/
inductive Arrives : List Bytes → List RecvAnswer → Prop where
  | interrupted {fs : List Bytes} {q : List RecvAnswer} (later : Arrives fs q) : Arrives fs (.interrupted :: q)
  | last (f : Bytes) (timestampNs : UInt64) (sends : Nat → SendOutcome) : Arrives [f] [.frame f false timestampNs sends]
  | more {f : Bytes} {fs : List Bytes} {q : List RecvAnswer} (timestampNs : UInt64) (sends : Nat → SendOutcome)
      (later : Arrives fs q) : Arrives (f :: fs) (.frame f true timestampNs sends :: q)

end Build

section Shape

/-- The header of a message. -/
def headerOf (p : Nat) (sent : UInt64) (size : Nat) (d : Telemetry) : TestHeader where
  magic := kTestMagic
  publisherIndex := UInt32.ofNat p
  messageIndex := sent
  payloadLength := UInt32.ofNat size
  dataType := d.type
  dataLength := UInt16.ofNat (dataSize d.type)

/-- The filler of `n` bytes from `i` on. -/
def filler (sent : UInt64) (i n : Nat) : Bytes := (List.range' i n).map (fillerByte sent)

/-- A message without its topic; `size` is what its header says. -/
def message (p : Nat) (sent : UInt64) (size body : Nat) (d : Telemetry) : Bytes :=
  TestHeader.codec.put (headerOf p sent size d) ++ (d.bytes ++
    filler sent (kTestHeaderSize + dataSize d.type) (body - (kTestHeaderSize + dataSize d.type)))

theorem length_filler (sent : UInt64) (i n : Nat) : (filler sent i n).length = n := by simp [filler]

theorem toNat_fillerByte (sent : UInt64) (i : Nat) : (fillerByte sent i).toNat = (sent.toNat + i) % 256 := by
  rw [fillerByte, UInt64.toNat_toUInt8, UInt64.toNat_and, UInt64.toNat_add, UInt64.toNat_ofNat']
  change ((sent.toNat + i % 2 ^ 64) % 2 ^ 64 &&& 255) % 2 ^ 8 = _
  rw [and_255]
  omega

theorem headerStores_contiguous (p : Nat) (sent : UInt64) (size : Nat) (type : UInt16) (dataLen : Nat) :
    Contiguous 0 (headerStores p sent size type dataLen) :=
  ⟨rfl, rfl, rfl, rfl, rfl, rfl, trivial⟩

theorem headerStores_data (p : Nat) (sent : UInt64) (size : Nat) (d : Telemetry) :
    (headerStores p sent size d.type (dataSize d.type)).flatMap Patch.data =
      TestHeader.codec.put (headerOf p sent size d) := by
  simp only [headerStores, List.flatMap_cons, List.flatMap_nil, List.append_nil, putU64le_eq, putU32le_eq, putU16le_eq]
  rfl

/-- The loop fills the rest of the buffer. -/
theorem fill_gap (sent : UInt64) (h : Nat) {pre hole : Bytes} {i : Nat} (at_gap : h + i = pre.length) :
    fill sent h hole.length i (pre ++ hole) = .ok (pre ++ filler sent i hole.length) := by
  induction hole generalizing pre i with
  | nil => rfl
  | cons b hole ih =>
    have fits : h + i + 1 ≤ (pre ++ b :: hole).length := by rw [List.length_append, List.length_cons]; omega
    have next : h + (i + 1) = (pre ++ [fillerByte sent i]).length := by rw [List.length_append, List.length_singleton]; omega
    have stored := @splice_gap _ pre [fillerByte sent i] (b :: hole) [] (by simp)
    rw [List.append_nil, List.append_nil, List.length_singleton, List.drop_one, List.tail_cons] at stored
    have whole : [fillerByte sent i].take 1 = [fillerByte sent i] := rfl
    rw [List.length_cons, fill, memcpy_of_fits fits (le_refl _), at_gap, whole, stored]
    change fill sent h hole.length (i + 1) _ = _
    have first : filler sent i (hole.length + 1) = [fillerByte sent i] ++ filler sent (i + 1) hole.length := by
      rw [filler, List.range'_succ, List.map_cons]
      rfl
    rw [ih next, first, List.append_assoc]

theorem length_resize (b : Bytes) (n : Nat) : (resize b n).length = n := by
  rw [resize, List.length_append, List.length_take, List.length_replicate]
  omega

/-- The topic in front of a frame, and the number of bytes that `body` stands for. -/
def topicPrefix (topic : Bytes) (multipart : Bool) : Bytes := if multipart then [] else topic

def bodySize (size : Nat) (d : Telemetry) : Nat := max size (kTestHeaderSize + dataSize d.type)

/-- The buffer holds the message behind its topic, and nothing of the message before. -/
theorem buildPayload_eq (old topic : Bytes) (multipart : Bool) (p : Nat) (sent : UInt64) (size : Nat) (d : Telemetry) :
    buildPayload old topic multipart p sent size d = .ok (topicPrefix topic multipart ++
      message p sent ((topicPrefix topic multipart).length + bodySize size d) (bodySize size d) d) := by
  have pre_eq : (if multipart then 0 else topic.length) = (topicPrefix topic multipart).length := by
    cases multipart <;> rfl
  have enough : kTestHeaderSize + dataSize d.type ≤ bodySize size d := Nat.le_max_right _ _
  -- The buffer behind the topic, in the parts that the three steps write.
  obtain ⟨rest, length, started⟩ : ∃ rest : Bytes, rest.length = bodySize size d ∧
      (if (topicPrefix topic multipart).length ≠ 0 then
        memcpy (resize old ((topicPrefix topic multipart).length + bodySize size d)) 0 topic (topicPrefix topic multipart).length
       else .ok (resize old ((topicPrefix topic multipart).length + bodySize size d))) =
      .ok (topicPrefix topic multipart ++ rest) := by
    have resized := length_resize old ((topicPrefix topic multipart).length + bodySize size d)
    generalize resize old ((topicPrefix topic multipart).length + bodySize size d) = payload at resized
    by_cases unprefixed : (topicPrefix topic multipart).length = 0
    · rw [List.length_eq_zero_iff] at unprefixed
      rw [unprefixed, List.length_nil, Nat.zero_add] at resized
      exact ⟨payload, resized, by rw [unprefixed]; rfl⟩
    · have prefixed : topicPrefix topic multipart = topic := by
        cases multipart with
        | false => rfl
        | true => exact absurd rfl unprefixed
      rw [prefixed] at unprefixed resized ⊢
      refine ⟨payload.drop topic.length, by rw [List.length_drop]; omega, ?_⟩
      rw [if_pos unprefixed, memcpy_of_fits (by omega) (le_refl _), List.take_length, splice, List.take_zero, List.nil_append,
        Nat.zero_add]
  obtain ⟨h₁, h₂, h₃, rfl, l₁, l₂⟩ : ∃ h₁ h₂ h₃ : Bytes, rest = h₁ ++ (h₂ ++ h₃) ∧ h₁.length = kTestHeaderSize ∧
      h₂.length = dataSize d.type := by
    refine ⟨rest.take kTestHeaderSize, (rest.drop kTestHeaderSize).take (dataSize d.type),
      (rest.drop kTestHeaderSize).drop (dataSize d.type), ?_, ?_, ?_⟩
    · rw [List.take_append_drop, List.take_append_drop]
    · rw [List.length_take]; omega
    · rw [List.length_take, List.length_drop]; omega
  have l₃ : h₃.length = bodySize size d - (kTestHeaderSize + dataSize d.type) := by
    rw [List.length_append, List.length_append] at length
    omega
  unfold message
  generalize topicPrefix topic multipart = pre at *
  generalize sized : bodySize size d = body at *
  have size_eq : max size (kTestHeaderSize + dataSize d.type) = body := sized
  have total : (pre ++ (h₁ ++ (h₂ ++ h₃))).length = pre.length + body := by rw [List.length_append, length]
  have header := headerStores_data p sent (pre.length + body) d
  have headerLength : (TestHeader.codec.put (headerOf p sent (pre.length + body) d)).length = kTestHeaderSize :=
    TestHeader.codec.length_put _
  have stored := @store_contiguous pre h₁ (h₂ ++ h₃) 0 pre.length _
    (headerStores_contiguous p sent (pre.length + body) d.type (dataSize d.type)) (Nat.add_zero _)
    (by rw [header, headerLength, l₁])
  rw [header] at stored
  generalize TestHeader.codec.put (headerOf p sent (pre.length + body) d) = headerBytes at *
  have encoded := @Telemetry.encode_gap d (pre ++ headerBytes) h₂ h₃ (pre.length + kTestHeaderSize)
    (by rw [List.length_append, headerLength]) l₂
  have filled := @fill_gap sent pre.length (pre ++ headerBytes ++ d.bytes) h₃ (kTestHeaderSize + dataSize d.type)
    (by rw [List.length_append, List.length_append, headerLength, d.length_bytes]; omega)
  have run : (do
      let payload ← store (pre ++ (h₁ ++ (h₂ ++ h₃))) pre.length
        (headerStores p sent (pre ++ (h₁ ++ (h₂ ++ h₃))).length d.type (dataSize d.type))
      let payload ← d.encode payload (pre.length + kTestHeaderSize)
      fill sent pre.length (body - (kTestHeaderSize + dataSize d.type)) (kTestHeaderSize + dataSize d.type) payload) =
      .ok (pre ++ (headerBytes ++ (d.bytes ++
        filler sent (kTestHeaderSize + dataSize d.type) (body - (kTestHeaderSize + dataSize d.type))))) := by
    rw [total, stored, Machine.ok_bind, ← List.append_assoc, encoded, Machine.ok_bind, ← l₃, ← List.append_assoc, filled]
    simp only [List.append_assoc]
  rw [buildPayload]
  dsimp only
  rw [pre_eq, size_eq]
  by_cases named : pre.length ≠ 0
  · rw [if_pos named] at started ⊢
    rw [started]
    exact run
  · rw [if_neg named] at started ⊢
    rw [started]
    exact run

end Shape

section Relayed

/-- The bridge puts the frames of a message one behind the other. -/
theorem Arrives.messages {fs : List Bytes} {q : List RecvAnswer} (arrives : Arrives fs q) (index : Nat) :
    (∃ c : Bridge.Call, IpcRelay.messages index none q = [c] ∧ c.data = fs.flatten) ∧
      ∀ part : Bridge.Call, ∃ c : Bridge.Call, IpcRelay.messages index (some part) q = [c] ∧
        c.data = part.data ++ fs.flatten := by
  induction arrives with
  | interrupted _ ih => exact ih
  | last f timestampNs sends =>
    refine ⟨⟨_, rfl, ?_⟩, fun part => ⟨_, rfl, ?_⟩⟩
    · rw [List.flatten_singleton]
    · rw [List.flatten_singleton]
  | @more f fs q timestampNs sends _ ih =>
    refine ⟨ih.2 ⟨index, f, Wire.kFlagMultipart, timestampNs, sends⟩, fun part => ?_⟩
    obtain ⟨c, one, data⟩ := ih.2 { part with data := part.data ++ f }
    exact ⟨c, one, by rw [data, List.flatten_cons, List.append_assoc]⟩

/-- The size that the header of a message says: a topic in a frame of its own is not counted. -/
def saidSize (topic : Bytes) (multipart : Bool) (size : Nat) (d : Telemetry) : Nat :=
  (topicPrefix topic multipart).length + bodySize size d

/-- Both framings are relayed as the topic with the message behind it. -/
theorem relayed_message {old topic payload : Bytes} {multipart : Bool} {p : Nat} {sent : UInt64} {size : Nat} {d : Telemetry}
    (built : buildPayload old topic multipart p sent size d = .ok payload) {q : List RecvAnswer}
    (arrives : Arrives (frames topic multipart payload) q) (index : Nat) :
    ∃ c : Bridge.Call, IpcRelay.messages index none q = [c] ∧
      c.data = topic ++ message p sent (saidSize topic multipart size d) (bodySize size d) d := by
  obtain ⟨⟨c, one, data⟩, -⟩ := arrives.messages index
  rw [buildPayload_eq] at built
  cases built
  refine ⟨c, one, ?_⟩
  rw [data]
  cases multipart with
  | false => exact List.flatten_singleton
  | true =>
    change topic ++ (([] ++ _) ++ []) = _
    rw [List.append_nil, List.nil_append]
    rfl

end Relayed

end IpcRelay.Testpub
