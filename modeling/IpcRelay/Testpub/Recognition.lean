import IpcRelay.Csvexport.Rows
import IpcRelay.Receiver.VerifyTestpub
import IpcRelay.Testpub.Publisher

/-!
# Test telemetry from the publisher to the tools

What the publisher sends is relayed and found again by two readers, which look
for the magic number in a payload whose topic they do not know. Both find the
header if the magic number does not begin within the topic, and accept it if the
topic was counted in its length field. A header that a topic pretends to have
cannot pass: its data and its filler would overlap with those of the message,
one of them shifted against the other (`no_shift`).
-/

namespace IpcRelay.Testpub

open LittleEndian CaptureInspect Csvexport

/-- The bytes of the magic number. -/
def magicBytes : Bytes := [0x54, 0x45, 0x53, 0x54]

/-- Both readers find in the payload what was published. -/
structure Recognised (payload : Bytes) (p : Nat) (sent : UInt64) (d : Telemetry) : Prop where
  verified : verifyTestpubPayload payload none = .ok (p, sent.toNat)
  decoded : ∃ h, testpubOf payload = some (h, d) ∧ h.publisherIndex.toNat = p ∧ h.messageIndex = sent
  /-- The row gets the fields of the message, in the file of its type. -/
  exported : ∀ (floatText : F32 → Bytes) (texts : List Bytes) (stem columns : Bytes),
    decodeTestpub floatText payload (Row.of texts) stem columns =
      .ok (Row.of (texts ++ ([numText p, numText sent.toNat] ++ telemetryTexts floatText d)),
        (Kind.ofTelemetry d).stem, (Kind.ofTelemetry d).columns, true)

section Readers

variable {payload : Bytes} {idx : Nat}

theorem toNat_field16 (b : Bytes) (off : Nat) : (u16.readAt b off).toNat = field b off 2 :=
  UInt16.toNat_ofNat_of_lt' (Nat.lt_of_lt_of_le (ofBytes_lt _) (Nat.pow_le_pow_right (by decide) (List.length_take_le _ _)))

theorem toNat_field32 (b : Bytes) (off : Nat) : (u32.readAt b off).toNat = field b off 4 :=
  UInt32.toNat_ofNat_of_lt' (Nat.lt_of_lt_of_le (ofBytes_lt _) (Nat.pow_le_pow_right (by decide) (List.length_take_le _ _)))

theorem toNat_field64 (b : Bytes) (off : Nat) : (u64.readAt b off).toNat = field b off 8 :=
  UInt64.toNat_ofNat_of_lt' (Nat.lt_of_lt_of_le (ofBytes_lt _) (Nat.pow_le_pow_right (by decide) (List.length_take_le _ _)))

theorem testHeader_readAt (b : Bytes) (off : Nat) : TestHeader.codec.readAt b off =
    ⟨u32.readAt b off, u32.readAt b (off + 4), u64.readAt b (off + 8), u32.readAt b (off + 16), u16.readAt b (off + 20),
      u16.readAt b (off + 22)⟩ := by
  unfold TestHeader.codec
  simp only [Codec.readAt_iso, Codec.readAt_pair, u16_width, u32_width, u64_width, Nat.add_assoc, Nat.reduceAdd]
  rfl

/-- What the CSV export demands of a payload that has the magic number at `idx`. -/
theorem testpubOf_found (found : Occurrence.firstAt magicBytes payload = some idx) {h : TestHeader} {d : Telemetry} :
    testpubOf payload = some (h, d) ↔ h = TestHeader.codec.readAt payload idx ∧
      idx + kTestHeaderSize + dataSize h.dataType ≤ payload.length ∧ h.payloadLength.toNat = payload.length ∧
      h.dataLength.toNat = dataSize h.dataType ∧
      Telemetry.readAt h.dataType payload (idx + kTestHeaderSize) = some d := by
  have here : Occurrence.firstAt [0x54, 0x45, 0x53, 0x54] payload = some idx := found
  unfold testpubOf
  simp only [here]
  generalize TestHeader.codec.readAt payload idx = h'
  split
  next bad =>
    refine iff_of_false (fun h => by cases h) ?_
    rintro ⟨rfl, data, length, size, -⟩
    omega
  next good =>
    rw [Option.map_eq_some_iff]
    constructor
    · rintro ⟨d', read, eq⟩
      cases eq
      exact ⟨rfl, by omega, by omega, by omega, read⟩
    · rintro ⟨rfl, -, -, -, read⟩
      exact ⟨d, read, rfl⟩

end Readers

section Shift

/-- A sequence that repeats after `k` steps below `n` and counts up from there counts up below, but for the places that
are a multiple of `k` before `n`. -/
theorem counts_up {G : Nat → UInt8} {n k : Nat} (pos : 0 < k) (repeats : ∀ i < n, G i = G (i + k))
    (counts : ∀ i, n ≤ i → G (i + 1) = G i + 1) {i : Nat} (inside : i < n) (between : ¬ k ∣ n - (i + 1)) :
    G (i + 1) = G i + 1 := by
  induction h : n - i using Nat.strong_induction_on generalizing i with
  | _ m ih =>
    have more : i + 1 < n := by
      by_contra last
      rw [Nat.sub_eq_zero_of_le (by omega)] at between
      exact between (dvd_zero k)
    rw [repeats i inside, repeats (i + 1) more, Nat.add_right_comm]
    by_cases beyond : n ≤ i + k
    · exact counts _ beyond
    · refine ih (n - (i + k)) (by omega) (by omega) ?_ rfl
      intro divides
      apply between
      have later : n - (i + 1) = n - (i + k + 1) + k := by omega
      rw [later]
      exact dvd_add divides (dvd_refl k)

/-- A message from the data type in its header to the end of its data. -/
def tailOf (d : Telemetry) : Bytes := u16.put d.type ++ u16.put (UInt16.ofNat (dataSize d.type)) ++ d.bytes

theorem length_tailOf (d : Telemetry) : (tailOf d).length = 4 + dataSize d.type := by
  rw [tailOf, List.length_append, List.length_append, Codec.length_put, Codec.length_put, d.length_bytes]
  rfl

/-- The first bytes do not count up. -/
theorem tailOf_head (d : Telemetry) : ∃ t l : UInt8, t ≠ 0 ∧ (0 : UInt8) ≠ t + 1 ∧ l ≠ 0 + 1 ∧
    tailOf d = [t, 0, l, 0] ++ d.bytes := by
  cases d with
  | boardHealth d =>
    have head : u16.put kDataBoardHealth ++ u16.put (UInt16.ofNat 80) = [1, 0, 80, 0] := by decide +kernel
    exact ⟨1, 80, by decide, by decide, by decide, congrArg (· ++ _) head⟩
  | modeStatus d =>
    have head : u16.put kDataModeStatus ++ u16.put (UInt16.ofNat 32) = [2, 0, 32, 0] := by decide +kernel
    exact ⟨2, 32, by decide, by decide, by decide, congrArg (· ++ _) head⟩
  | ptpStats d =>
    have head : u16.put kDataPtpStats ++ u16.put (UInt16.ofNat 56) = [3, 0, 56, 0] := by decide +kernel
    exact ⟨3, 56, by decide, by decide, by decide, congrArg (· ++ _) head⟩

theorem getD_of_part {b part : Bytes} {off n i : Nat} (cut : (b.drop off).take n = part) (inside : i < n) :
    b.getD (off + i) 0 = part.getD i 0 := by
  rw [← cut, List.getD_eq_getElem?_getD, List.getD_eq_getElem?_getD, List.getElem?_take_of_lt inside, List.getElem?_drop]

/-- A message cannot stand in a payload twice with a filler behind the first one up to the end. -/
theorem no_shift {payload : Bytes} {idx k m : Nat} {d : Telemetry} (pos : 0 < k)
    (real : (payload.drop (idx + k + 20)).take (4 + dataSize d.type) = tailOf d)
    (shifted : (payload.drop (idx + 20)).take (4 + dataSize d.type) = tailOf d)
    (filled : ∀ i, kTestHeaderSize + dataSize d.type ≤ i → idx + i < payload.length →
      (payload.getD (idx + i) 0).toNat = (m + i) % 256) : False := by
  have room := congrArg List.length real
  rw [length_tailOf, List.length_take, List.length_drop] at room
  generalize size : dataSize d.type = L at *
  unfold kTestHeaderSize at filled
  -- The bytes of the message from the data type on, and the filler that would follow the first copy.
  let G : Nat → UInt8 := fun i => if i < 4 + L then (tailOf d).getD i 0 else UInt8.ofNat (m + (20 + i))
  have repeats : ∀ i < 4 + L, G i = G (i + k) := by
    intro i inside
    have own : payload.getD (idx + k + 20 + i) 0 = (tailOf d).getD i 0 := getD_of_part real inside
    have place : idx + k + 20 + i = idx + 20 + (i + k) := by omega
    rw [place] at own
    by_cases again : i + k < 4 + L
    · have copy : payload.getD (idx + 20 + (i + k)) 0 = (tailOf d).getD (i + k) 0 := getD_of_part shifted again
      simp only [G, if_pos inside, if_pos again]
      rw [← own, copy]
    · have fill := filled (20 + (i + k)) (by omega) (by omega)
      rw [← Nat.add_assoc, own] at fill
      simp only [G, if_pos inside, if_neg again]
      apply UInt8.toNat_inj.1
      rw [fill, UInt8.toNat_ofNat']
  have counts : ∀ i, 4 + L ≤ i → G (i + 1) = G i + 1 := by
    intro i beyond
    simp only [G, if_neg (show ¬ i < 4 + L by omega), if_neg (show ¬ i + 1 < 4 + L by omega)]
    exact UInt8.ofNat_add (m + (20 + i)) 1
  obtain ⟨t, l, nonzero, first, second, head⟩ := tailOf_head d
  have G0 : G 0 = t := by simp only [G, if_pos (show 0 < 4 + L by omega), head]; rfl
  have G1 : G 1 = 0 := by simp only [G, if_pos (show 1 < 4 + L by omega), head]; rfl
  have G2 : G 2 = l := by simp only [G, if_pos (show 2 < 4 + L by omega), head]; rfl
  have divides : k ∣ 4 + L - 1 := by
    by_contra between
    have up := counts_up pos repeats counts (show 0 < 4 + L by omega) between
    rw [Nat.zero_add, G0, G1] at up
    exact first up
  have divides' : k ∣ 4 + L - 2 := by
    by_contra between
    have up := counts_up pos repeats counts (show 1 < 4 + L by omega) between
    rw [G1, G2] at up
    exact second up
  have one : k = 1 := by
    have difference := Nat.dvd_sub divides divides'
    rw [show 4 + L - 1 - (4 + L - 2) = 1 by omega] at difference
    exact Nat.dvd_one.1 difference
  have same := repeats 0 (by omega)
  rw [one, Nat.zero_add, G0, G1] at same
  exact nonzero same

end Shift

section Published

variable {topic : Bytes} {multipart : Bool} {p : UInt32} {sent : UInt64} {size : Nat} {d : Telemetry}

/-- What the bridge relays of a message. -/
def relayed (topic : Bytes) (multipart : Bool) (p : UInt32) (sent : UInt64) (size : Nat) (d : Telemetry) : Bytes :=
  topic ++ message p.toNat sent (saidSize topic multipart size d) (bodySize size d) d

theorem length_relayed : (relayed topic multipart p sent size d).length = topic.length + bodySize size d := by
  have enough : kTestHeaderSize + dataSize d.type ≤ bodySize size d := Nat.le_max_right _ _
  have header := TestHeader.codec.length_put (headerOf p.toNat sent (saidSize topic multipart size d) d)
  change _ = kTestHeaderSize at header
  rw [relayed, message, List.length_append, List.length_append, List.length_append, header, d.length_bytes, length_filler]
  omega

/-- The length field is right if the topic was counted or is empty. -/
theorem saidSize_iff : saidSize topic multipart size d = topic.length + bodySize size d ↔ multipart = false ∨ topic = [] := by
  unfold saidSize
  cases multipart with
  | false => exact iff_of_true rfl (.inl rfl)
  | true =>
    rw [← List.length_eq_zero_iff]
    change 0 + bodySize size d = _ ↔ _
    constructor
    · intro h
      exact .inr (by omega)
    · rintro (h | h)
      · cases h
      · omega

theorem saidSize_le : saidSize topic multipart size d ≤ topic.length + bodySize size d := by
  unfold saidSize
  cases multipart with
  | false => exact le_refl _
  | true => exact Nat.add_le_add_right (Nat.zero_le _) _

/-- The header stands behind the topic. -/
theorem header_relayed : TestHeader.codec.readAt (relayed topic multipart p sent size d) topic.length =
    headerOf p.toNat sent (saidSize topic multipart size d) d :=
  Codec.readAt_put _ _ _

/-- The data type and the data length are the end of a header. -/
theorem header_end (h : TestHeader) : ∃ front : Bytes, front.length = 20 ∧
    TestHeader.codec.put h = front ++ (u16.put h.dataType ++ u16.put h.dataLength) := by
  refine ⟨u32.put h.magic ++ u32.put h.publisherIndex ++ u64.put h.messageIndex ++ u32.put h.payloadLength, ?_, ?_⟩
  · simp only [List.length_append, Codec.length_put]
    rfl
  · simp only [List.append_assoc]
    rfl

/-- The part from the data type to the end of the data stands there. -/
theorem tail_relayed : ((relayed topic multipart p sent size d).drop (topic.length + 20)).take (4 + dataSize d.type) =
    tailOf d := by
  obtain ⟨front, length, header⟩ := header_end (headerOf p.toNat sent (saidSize topic multipart size d) d)
  rw [relayed, message, header, ← List.drop_drop, List.drop_left, List.append_assoc, ← length, List.drop_left,
    ← List.append_assoc, ← length_tailOf]
  exact List.take_left

/-- The filler is behind them. -/
theorem filler_relayed {i : Nat} (behind : kTestHeaderSize + dataSize d.type ≤ i)
    (inside : topic.length + i < (relayed topic multipart p sent size d).length) :
    ((relayed topic multipart p sent size d).getD (topic.length + i) 0).toNat = (sent.toNat + i) % 256 := by
  have header := TestHeader.codec.length_put (headerOf p.toNat sent (saidSize topic multipart size d) d)
  change _ = kTestHeaderSize at header
  have data := d.length_bytes
  rw [length_relayed] at inside
  obtain ⟨j, rfl⟩ := Nat.exists_eq_add_of_le behind
  have byte : (relayed topic multipart p sent size d)[topic.length + (kTestHeaderSize + dataSize d.type + j)]? =
      some (fillerByte sent (kTestHeaderSize + dataSize d.type + j)) := by
    rw [relayed, message, List.getElem?_append_right (by omega), List.getElem?_append_right (by omega),
      List.getElem?_append_right (by omega), header, data,
      show topic.length + (kTestHeaderSize + dataSize d.type + j) - topic.length - kTestHeaderSize - dataSize d.type = j by
        omega, filler, List.getElem?_map, List.getElem?_range' (by omega), Nat.one_mul]
    rfl
  rw [List.getD_eq_getElem?_getD, byte, Option.getD_some, toNat_fillerByte]

/-- The magic number is found where it begins first in the topic with the magic number behind it. -/
theorem found_relayed : ∃ idx ≤ topic.length, Occurrence.firstAt magicBytes (topic ++ magicBytes) = some idx ∧
    Occurrence.firstAt magicBytes (relayed topic multipart p sent size d) = some idx := by
  have at_end : magicBytes <+: (topic ++ magicBytes).drop topic.length := by rw [List.drop_left]
  obtain ⟨idx, le, first⟩ := Occurrence.firstAt_le at_end (by rw [List.length_append]; omega)
  have magic : u32.put kTestMagic = magicBytes := by decide +kernel
  refine ⟨idx, le, first, ?_⟩
  obtain ⟨rest, whole⟩ : ∃ rest, message p.toNat sent (saidSize topic multipart size d) (bodySize size d) d =
      magicBytes ++ rest := by
    rw [← magic, message]
    exact ⟨_, List.append_assoc _ _ _⟩
  have more := Occurrence.firstAt_append first rest
  rwa [List.append_assoc, ← whole] at more

end Published

section Matching

variable {topic : Bytes} {multipart : Bool} {p : UInt32} {sent : UInt64} {size : Nat} {d : Telemetry}

/-- The tool's table has the type and the size of the data. -/
theorem expected_of_type (type : d.type = dataTypeForEndpoint p.toNat) : d.type.toNat = expectedType p.toNat ∧
    expectedLength (expectedType p.toNat) = some (dataSize d.type) ∧ dataSize d.type < 2 ^ 16 ∧ dataSize d.type ≠ 0 := by
  have every : ∀ r : Fin 3, (UInt16.ofNat (1 + r)).toNat = 1 + r ∧
      expectedLength (1 + r) = some (dataSize (UInt16.ofNat (1 + r))) ∧ dataSize (UInt16.ofNat (1 + r)) < 2 ^ 16 ∧
      dataSize (UInt16.ofNat (1 + r)) ≠ 0 := by decide +kernel
  rw [type]
  exact every ⟨p.toNat % 3, Nat.mod_lt _ (by decide)⟩

/-- The header behind the topic passes if its length field is right. -/
theorem passes_relayed (type : d.type = dataTypeForEndpoint p.toNat)
    (short : (relayed topic multipart p sent size d).length ≤ Wire.kMaxMessageLength) :
    Passes (relayed topic multipart p sent size d) topic.length p.toNat sent.toNat ↔ multipart = false ∨ topic = [] := by
  have total := @length_relayed topic multipart p sent size d
  have header := @header_relayed topic multipart p sent size d
  have enough : kTestHeaderSize + dataSize d.type ≤ bodySize size d := Nat.le_max_right _ _
  have le := @saidSize_le topic multipart size d
  obtain ⟨known, length, small, -⟩ := expected_of_type type
  rw [testHeader_readAt] at header
  injection header with magic publisher message said dataType dataLen
  have said_field := congrArg UInt32.toNat said
  unfold Wire.kMaxMessageLength at short
  rw [toNat_field32, UInt32.toNat_ofNat_of_lt' (by change _ < 2 ^ 32; omega)] at said_field
  have len_field := congrArg UInt16.toNat dataLen
  rw [toNat_field16, UInt16.toNat_ofNat_of_lt' small] at len_field
  have type_field := congrArg UInt16.toNat dataType
  rw [toNat_field16, known] at type_field
  rw [← @saidSize_iff topic multipart size d]
  constructor
  · intro h
    rw [← said_field, h.length, total]
  · intro counted
    refine ⟨?_, ?_, ?_, ?_, ?_, type_field, ?_, ?_, ?_⟩
    · unfold testpubHeaderSize
      unfold kTestHeaderSize at enough
      omega
    · exact (toNat_field32 _ _).symm.trans (congrArg UInt32.toNat magic)
    · rw [← toNat_field32, publisher, UInt32.ofNat_toNat]
    · rw [← toNat_field64, message]
    · rw [said_field, total, counted]
    · rw [len_field, length]
    · rw [len_field, total]
      unfold testpubHeaderSize
      unfold kTestHeaderSize at enough
      omega
    · intro i behind inside
      rw [len_field] at behind
      exact filler_relayed behind inside

/-- Both readers recognise what stands behind the topic, where they find it there. -/
theorem recognised_of_passes (type : d.type = dataTypeForEndpoint p.toNat)
    (found : Occurrence.firstAt magicBytes (relayed topic multipart p sent size d) = some topic.length)
    (passes : Passes (relayed topic multipart p sent size d) topic.length p.toNat sent.toNat) :
    Recognised (relayed topic multipart p sent size d) p.toNat sent d := by
  obtain ⟨-, -, small, -⟩ := expected_of_type type
  have total := @length_relayed topic multipart p sent size d
  have header := @header_relayed topic multipart p sent size d
  have enough : kTestHeaderSize + dataSize d.type ≤ bodySize size d := Nat.le_max_right _ _
  have length := passes.length
  rw [← toNat_field32] at length
  have said := congrArg TestHeader.payloadLength header
  rw [testHeader_readAt] at said
  dsimp only at said
  rw [said] at length
  have decoded : testpubOf (relayed topic multipart p sent size d) =
      some (headerOf p.toNat sent (saidSize topic multipart size d) d, d) := by
    refine (testpubOf_found found).2 ⟨header.symm, ?_, length, UInt16.toNat_ofNat_of_lt' small, ?_⟩
    · change topic.length + kTestHeaderSize + dataSize d.type ≤ _
      omega
    · have written := Telemetry.readAt_bytes d
        (topic ++ TestHeader.codec.put (headerOf p.toNat sent (saidSize topic multipart size d) d))
        (filler sent (kTestHeaderSize + dataSize d.type) (bodySize size d - (kTestHeaderSize + dataSize d.type)))
      rw [List.length_append, Codec.length_put, List.append_assoc] at written
      exact written
  refine ⟨(verifyTestpubPayload_found found).2 passes, ⟨_, decoded, ?_, rfl⟩, ?_⟩
  · exact congrArg UInt32.toNat (UInt32.ofNat_toNat (x := p))
  · intro floatText texts stem columns
    rw [decodeTestpub_eq, decoded]
    simp only [headerOf, UInt32.ofNat_toNat]

/-- A header that begins within the topic is not recognised as the one of the message. -/
theorem not_recognised_before (type : d.type = dataTypeForEndpoint p.toNat) {idx : Nat} (before : idx < topic.length)
    (found : Occurrence.firstAt magicBytes (relayed topic multipart p sent size d) = some idx) :
    ¬ Recognised (relayed topic multipart p sent size d) p.toNat sent d := by
  intro recognised
  obtain ⟨known, length, small, -⟩ := expected_of_type type
  have passes := (verifyTestpubPayload_found found).1 recognised.verified
  obtain ⟨h, decoded, -, -⟩ := recognised.decoded
  obtain ⟨header, room, -, dataLen, read⟩ := (testpubOf_found found).1 decoded
  have same := Telemetry.type_of_readAt read
  rw [← same] at room dataLen read
  have filled := passes.filler
  have len_field := passes.size
  rw [length] at len_field
  rw [← Option.some.inj len_field] at filled
  refine no_shift (k := topic.length - idx) (by omega) ?_ ?_ filled
  · rw [show idx + (topic.length - idx) + 20 = topic.length + 20 by omega]
    exact tail_relayed
  · have within : idx + TestHeader.codec.width ≤ (relayed topic multipart p sent size d).length :=
      le_trans (Nat.le_add_right _ _) room
    have put := Codec.put_readAt within
    rw [← header] at put
    obtain ⟨front, length, split⟩ := header_end h
    have sized : h.dataLength = UInt16.ofNat (dataSize d.type) := by
      apply UInt16.toNat_inj.1
      rw [dataLen, UInt16.toNat_ofNat_of_lt' small]
    have four : ((relayed topic multipart p sent size d).drop (idx + 20)).take 4 =
        u16.put d.type ++ u16.put (UInt16.ofNat (dataSize d.type)) := by
      rw [split, ← same, sized] at put
      have ends := congrArg (List.drop 20) put
      rw [← length, List.drop_left, length, List.drop_take, List.drop_drop] at ends
      exact ends.symm
    have data := Telemetry.bytes_of_readAt read room
    rw [List.take_add, four, List.drop_drop, tailOf, data]
    rfl

/-- Both readers recognise a relayed message just if its topic was sent in front of it in one frame, or is empty, and the
magic number does not begin within the topic. -/
theorem telemetry_recognised_iff (old topic : Bytes) (multipart : Bool) (p : UInt32) (sent : UInt64) (size : Nat) (d : Telemetry)
    (type : d.type = dataTypeForEndpoint p.toNat) :
    ∃ payload, buildPayload old topic multipart p.toNat sent size d = .ok payload ∧
      ∀ q, Arrives (frames topic multipart payload) q → ∀ source, ∃ c : Bridge.Call, messages source none q = [c] ∧
        (c.data.length ≤ Wire.kMaxMessageLength →
          (Recognised c.data p.toNat sent d ↔
            (multipart = false ∨ topic = []) ∧ Occurrence.firstAt magicBytes (topic ++ magicBytes) = some topic.length)) := by
  have built := buildPayload_eq old topic multipart p.toNat sent size d
  refine ⟨_, built, ?_⟩
  intro q arrives source
  obtain ⟨c, one, data⟩ := relayed_message built arrives source
  refine ⟨c, one, ?_⟩
  change c.data = relayed topic multipart p sent size d at data
  rw [data]
  intro short
  obtain ⟨idx, le, first, found⟩ := @found_relayed topic multipart p sent size d
  rw [first]
  constructor
  · intro recognised
    rcases Nat.lt_or_eq_of_le le with before | rfl
    · exact absurd recognised (not_recognised_before type before found)
    · exact ⟨(passes_relayed type short).1 ((verifyTestpubPayload_found found).1 recognised.verified), rfl⟩
  · rintro ⟨counted, eq⟩
    cases eq
    exact recognised_of_passes type found ((passes_relayed type short).2 counted)

/-- The first status of a board. -/
def labStatus : Telemetry := .modeStatus {
  sampleTimeNs := 1000, uptimeS := 0, mode := 0, previousMode := 0, modeChangeCount := 0, statusFlags := 16, faultCode := 0,
  timeInModeS := 0, heartbeat := 0 }

/-- It is recognised behind its topic, as the only frame that a bridge receives. -/
theorem telemetry_recognised_iff_lab : ∃ payload, buildPayload [] (str "TLM") false 1 7 64 labStatus = .ok payload ∧
    ∃ c : Bridge.Call, messages 0 none [.frame payload false 0 fun _ => .sent 0] = [c] ∧
      Recognised c.data 1 7 labStatus := by
  obtain ⟨payload, built, all⟩ := telemetry_recognised_iff [] (str "TLM") false 1 7 64 labStatus (by decide +kernel)
  obtain ⟨c, one, iff⟩ := all _ (.last payload 0 fun _ => .sent 0) 0
  have counted : ((buildPayload [] (str "TLM") false 1 7 64 labStatus).toOption.map List.length).all
      (· ≤ Wire.kMaxMessageLength) = true := by decide +kernel
  rw [show buildPayload [] (str "TLM") false 1 7 64 labStatus = .ok payload from built] at counted
  have short : c.data.length ≤ Wire.kMaxMessageLength := by
    cases one
    exact of_decide_eq_true counted
  have first : Occurrence.firstAt magicBytes (str "TLM" ++ magicBytes) = some (str "TLM").length := by decide +kernel
  exact ⟨payload, built, c, one, (iff short).2 ⟨.inl rfl, first⟩⟩

/-- A message whose topic is a frame of its own says another length than is relayed, and a topic that is the magic number
is taken for the header. -/
theorem topic_not_recognised :
    (∃ payload, buildPayload [] (str "TLM") true 1 0 64 labStatus = .ok payload ∧
      Arrives (frames (str "TLM") true payload) [.frame (str "TLM") true 0 fun _ => .sent 0, .frame payload false 0 fun _ => .sent 0] ∧
      ∃ c : Bridge.Call, messages 0 none [.frame (str "TLM") true 0 fun _ => .sent 0, .frame payload false 0 fun _ => .sent 0] = [c] ∧
        ¬ Recognised c.data 1 0 labStatus) ∧
    ∃ payload, buildPayload [] (str "TEST") false 1 0 64 labStatus = .ok payload ∧
      Arrives (frames (str "TEST") false payload) [.frame payload false 0 fun _ => .sent 0] ∧
      ∃ c : Bridge.Call, messages 0 none [.frame payload false 0 fun _ => .sent 0] = [c] ∧
        ¬ Recognised c.data 1 0 labStatus := by
  refine ⟨⟨_, buildPayload_eq .., .more _ _ (.last _ _ _), _, rfl, ?_⟩, _, buildPayload_eq .., .last _ _ _, _, rfl, ?_⟩
  · intro h
    exact absurd h.verified (by decide +kernel)
  · intro h
    exact absurd h.verified (by decide +kernel)

end Matching

end IpcRelay.Testpub
