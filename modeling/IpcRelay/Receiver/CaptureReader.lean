import IpcRelay.Receiver.CaptureWriter

/-!
# Reading a capture file (`capture_format.cpp`, `capture_reader.hpp`, `capture_reader.cpp`)

The reader takes a file apart record by record. `rest` is the part of the file
behind the read position: a read beyond the end gives the bytes that there are.
`readAll_take` is the reading back of any number of bytes of a file that the
writer produced: the records that lie wholly within them, and an error exactly
if the bytes end within a record.
-/

namespace IpcRelay.Capture

open LittleEndian Overlay

/-- `decode_file_header`: the header, and whether it is accepted. -/
def decodeFileHeader (p : Bytes) (h : FileHeader) : Exec (FileHeader × Bool) :=
  if p.length < kFileHeaderSize then .ok (h, false)
  else do
    if (← getU32le p 0) ≠ kFileMagic then .ok (h, false)
    else
      let h : FileHeader :=
        { version := ← getU16le p 4
          headerLength := ← getU16le p 6
          createdNs := ← getU64le p 8
          wireVersion := ← getU16le p 16 }
      .ok (h, h.version = kFormatVersion && h.headerLength.toNat ≥ kFileHeaderSize)

/-- `decode_record_header`. -/
def decodeRecordHeader (p : Bytes) (h : RecordHeader) : Exec (RecordHeader × Bool) :=
  if p.length < kRecordHeaderSize then .ok (h, false)
  else do
    if (← getU32le p 0) ≠ kRecordMagic then .ok (h, false)
    else
      let h : RecordHeader :=
        { sourceId := ← getU32le p 4
          sequence := ← getU64le p 8
          timestampNs := ← getU64le p 16
          payloadLength := ← getU32le p 24
          flags := ← getU16le p 28 }
      .ok (h, true)

structure CaptureReader where
  isOpen : Bool := false
  rest : Bytes := []
  fileHeader : FileHeader := {}
  error : Bytes := []
  deriving DecidableEq, Repr

/-- A record: its header and its payload. -/
structure Record where
  hdr : RecordHeader
  payload : Bytes
  deriving DecidableEq, Repr

namespace CaptureReader

/-- `read_bytes`: at most `n` bytes, those that there are. -/
def readBytes (r : CaptureReader) (n : Nat) : CaptureReader × Bytes :=
  ({ r with rest := r.rest.drop n }, r.rest.take n)

/-- `open`; the file is its contents, or the text of the error that opening it gives. A seek
beyond the end of a file succeeds. -/
def openFile (r : CaptureReader) (path : Bytes) (file : Except Bytes Bytes) : Exec (CaptureReader × Bool) :=
  match file with
  | .error err => .ok ({ r with error := str "open " ++ quoted path ++ str ": " ++ err }, false)
  | .ok contents => do
    let r := { r with isOpen := true, rest := contents }
    let (r, raw) := r.readBytes kFileHeaderSize
    if raw.length ≠ kFileHeaderSize then .ok ({ r with error := str "short file header" }, false)
    else do
      let (h, ok) ← decodeFileHeader raw r.fileHeader
      let r := { r with fileHeader := h }
      if ¬ ok then .ok ({ r with error := str "bad file magic or unsupported version" }, false)
      else if h.headerLength.toNat > kFileHeaderSize then
        .ok ({ r with rest := r.rest.drop (h.headerLength.toNat - kFileHeaderSize) }, true)
      else .ok (r, true)

/-- `next`: the record that it returns, if it returns true. -/
def next (r : CaptureReader) : Exec (CaptureReader × Option Record) :=
  if ¬ r.isOpen ∨ r.error ≠ [] then .ok (r, none)
  else do
    let (r, raw) := r.readBytes kRecordHeaderSize
    if raw.length = 0 then .ok (r, none)
    else if raw.length ≠ kRecordHeaderSize then .ok ({ r with error := str "truncated record header" }, none)
    else do
      let (hdr, ok) ← decodeRecordHeader raw {}
      if ¬ ok then .ok ({ r with error := str "bad record magic" }, none)
      else if hdr.payloadLength > 0 then
        let (r, payload) := r.readBytes hdr.payloadLength.toNat
        if payload.length ≠ hdr.payloadLength.toNat then
          .ok ({ r with error := str "truncated record payload" }, none)
        else .ok (r, some ⟨hdr, payload⟩)
      else .ok (r, some ⟨hdr, []⟩)

/-- Calling `next` until it returns false, with the records that it returned. -/
def readAll : Nat → CaptureReader → Exec (CaptureReader × List Record)
  | 0, _ => .error .diverges
  | fuel + 1, r => do
    match ← r.next with
    | (r, none) => .ok (r, [])
    | (r, some record) =>
      let (r, records) ← readAll fuel r
      .ok (r, record :: records)

/-- Reading a file from its beginning to where the reader stops; every record has its header. -/
def readFile (path : Bytes) (file : Except Bytes Bytes) : Exec (CaptureReader × List Record) := do
  let (r, ok) ← ({} : CaptureReader).openFile path file
  if ok then readAll (r.rest.length + 1) r else .ok (r, [])

end CaptureReader

section Decode

variable {p : Bytes}

/-- The fields of a file header by their offsets. -/
def fileHeaderOf (p : Bytes) : FileHeader where
  version := UInt16.ofNat (field p 4 2)
  headerLength := UInt16.ofNat (field p 6 2)
  createdNs := UInt64.ofNat (field p 8 8)
  wireVersion := UInt16.ofNat (field p 16 2)

/-- The fields of a record header by their offsets. -/
def recordHeaderOf (p : Bytes) : RecordHeader where
  sourceId := UInt32.ofNat (field p 4 4)
  sequence := UInt64.ofNat (field p 8 8)
  timestampNs := UInt64.ofNat (field p 16 8)
  payloadLength := UInt32.ofNat (field p 24 4)
  flags := UInt16.ofNat (field p 28 2)

theorem decodeFileHeader_eq (h : FileHeader) (long : kFileHeaderSize ≤ p.length) :
    decodeFileHeader p h = .ok
      (if UInt32.ofNat (field p 0 4) ≠ kFileMagic then (h, false)
       else (fileHeaderOf p, (fileHeaderOf p).version = kFormatVersion &&
          (fileHeaderOf p).headerLength.toNat ≥ kFileHeaderSize)) := by
  have long' : 32 ≤ p.length := long
  rw [decodeFileHeader, if_neg (by omega), getU32le_spec (by omega)]
  simp only [bind, Except.bind]
  by_cases magic : UInt32.ofNat (field p 0 4) ≠ kFileMagic
  · rw [if_pos magic, if_pos magic]
  · rw [if_neg magic, if_neg magic, getU16le_spec (by omega), getU16le_spec (by omega), getU64le_spec (by omega),
      getU16le_spec (by omega)]
    rfl

theorem decodeRecordHeader_eq (h : RecordHeader) (long : kRecordHeaderSize ≤ p.length) :
    decodeRecordHeader p h = .ok
      (if UInt32.ofNat (field p 0 4) ≠ kRecordMagic then (h, false) else (recordHeaderOf p, true)) := by
  have long' : 32 ≤ p.length := long
  rw [decodeRecordHeader, if_neg (by omega), getU32le_spec (by omega)]
  simp only [bind, Except.bind]
  by_cases magic : UInt32.ofNat (field p 0 4) ≠ kRecordMagic
  · rw [if_pos magic, if_pos magic]
  · rw [if_neg magic, if_neg magic, getU32le_spec (by omega), getU64le_spec (by omega), getU64le_spec (by omega),
      getU32le_spec (by omega), getU16le_spec (by omega)]
    rfl

theorem decodeFileHeader_encode (h h₀ : FileHeader) (version : h.version = kFormatVersion)
    (size : kFileHeaderSize ≤ h.headerLength.toNat) : decodeFileHeader (encodeFileHeader h) h₀ = .ok (h, true) := by
  have v := h.version.toNat_lt
  have hl := h.headerLength.toNat_lt
  have ns := h.createdNs.toNat_lt
  have wv := h.wireVersion.toNat_lt
  have magic : UInt32.ofNat (field (encodeFileHeader h) 0 4) = kFileMagic := by
    simp only [encodeFileHeader_eq, putU32le_eq, List.append_assoc]
    rw [field_toBytes (by decide), UInt32.ofNat_toNat]
  have fields : fileHeaderOf (encodeFileHeader h) = h := by
    simp only [fileHeaderOf, encodeFileHeader_eq, putU16le_eq, putU32le_eq, putU64le_eq, List.append_assoc]
    simp (disch := simp; try omega) only [field_append_right, length_toBytes, Nat.reduceSub, Nat.sub_self,
      field_toBytes, UInt16.ofNat_toNat, UInt64.ofNat_toNat]
  rw [decodeFileHeader_eq h₀ (by simp), magic, fields]
  simp [version, size]

theorem decodeRecordHeader_encode (h h₀ : RecordHeader) :
    decodeRecordHeader (encodeRecordHeader h) h₀ = .ok (h, true) := by
  have id := h.sourceId.toNat_lt
  have sq := h.sequence.toNat_lt
  have ts := h.timestampNs.toNat_lt
  have pl := h.payloadLength.toNat_lt
  have fl := h.flags.toNat_lt
  have magic : UInt32.ofNat (field (encodeRecordHeader h) 0 4) = kRecordMagic := by
    simp only [encodeRecordHeader_eq, putU32le_eq, List.append_assoc]
    rw [field_toBytes (by decide), UInt32.ofNat_toNat]
  have fields : recordHeaderOf (encodeRecordHeader h) = h := by
    simp only [recordHeaderOf, encodeRecordHeader_eq, putU16le_eq, putU32le_eq, putU64le_eq, List.append_assoc]
    simp (disch := simp; try omega) only [field_append_right, length_toBytes, Nat.reduceSub, Nat.sub_self,
      field_toBytes, UInt16.ofNat_toNat, UInt32.ofNat_toNat, UInt64.ofNat_toNat]
  rw [decodeRecordHeader_eq h₀ (by simp), magic, fields]
  simp

end Decode

namespace Record

def bytes (r : Record) : Bytes := encodeRecordHeader r.hdr ++ r.payload

/-- The header has the length of the payload. -/
def Sized (r : Record) : Prop := r.hdr.payloadLength.toNat = r.payload.length

theorem length_bytes (r : Record) : r.bytes.length = kRecordHeaderSize + r.payload.length := by simp [bytes]

/-- The records that lie wholly within the first `n` bytes behind the file header. -/
def whole : List Record → Nat → List Record
  | [], _ => []
  | r :: rs, n => if r.bytes.length ≤ n then r :: whole rs (n - r.bytes.length) else []

theorem whole_prefix (rs : List Record) (n : Nat) : whole rs n <+: rs := by
  induction rs generalizing n with
  | nil => exact List.prefix_refl _
  | cons r rs ih =>
    unfold whole
    split
    · exact (List.prefix_cons_inj r).2 (ih _)
    · exact List.nil_prefix

theorem length_whole_le (rs : List Record) (n : Nat) : ((whole rs n).flatMap bytes).length ≤ n := by
  induction rs generalizing n with
  | nil => exact Nat.zero_le n
  | cons r rs ih =>
    unfold whole
    split
    next fits =>
      have rest := ih (n - r.bytes.length)
      rw [List.flatMap_cons, List.length_append]
      omega
    next => exact Nat.zero_le n

theorem whole_all (rs : List Record) : whole rs (rs.flatMap bytes).length = rs := by
  induction rs with
  | nil => rfl
  | cons r rs ih =>
    have rest : (r.bytes ++ rs.flatMap bytes).length - r.bytes.length = (rs.flatMap bytes).length := by simp
    rw [List.flatMap_cons, whole, if_pos (by simp), rest, ih]

end Record

namespace CaptureReader

section Next

variable {r : CaptureReader} {record : Record}

theorem next_end (isOpen : r.isOpen = true) (good : r.error = []) (rest : r.rest = []) : r.next = .ok (r, none) := by
  obtain ⟨_, _, _, _⟩ := r
  obtain rfl : _ = ([] : Bytes) := rest
  rw [next, if_neg (by simpa using ⟨isOpen, good⟩)]
  rfl

theorem next_record (isOpen : r.isOpen = true) (good : r.error = []) (sized : record.Sized) {tail : Bytes}
    (rest : r.rest = record.bytes ++ tail) : r.next = .ok ({ r with rest := tail }, some record) := by
  have len := length_encodeRecordHeader record.hdr
  have head : r.rest.take kRecordHeaderSize = encodeRecordHeader record.hdr := by
    rw [rest, Record.bytes, List.append_assoc, ← len, List.take_left]
  have behind : r.rest.drop kRecordHeaderSize = record.payload ++ tail := by
    rw [rest, Record.bytes, List.append_assoc, ← len, List.drop_left]
  rw [next, if_neg (by simp [isOpen, good])]
  simp only [readBytes, head, behind, len, decodeRecordHeader_encode, bind, Except.bind]
  rw [if_neg (by decide), if_neg (by simp), if_neg (by simp)]
  by_cases positive : record.hdr.payloadLength > 0
  · rw [if_pos positive, sized, List.take_left, List.drop_left, if_neg (by simp)]
  · have zero : record.hdr.payloadLength.toNat = 0 := by
      by_contra pos
      exact positive (UInt32.lt_iff_toNat_lt.2 (Nat.pos_of_ne_zero pos))
    have empty : record.payload = [] := List.length_eq_zero_iff.1 (sized.symm.trans zero)
    obtain ⟨hdr, payload⟩ := record
    obtain rfl : payload = [] := empty
    rw [if_neg positive]
    rfl

/-- The file ends within a record. -/
theorem next_short (isOpen : r.isOpen = true) (good : r.error = []) (sized : record.Sized) {n : Nat} (pos : 0 < n)
    (less : n < record.bytes.length) (rest : r.rest = record.bytes.take n) :
    ∃ r', r.next = .ok (r', none) ∧ r'.error ≠ [] := by
  have len := length_encodeRecordHeader record.hdr
  rw [record.length_bytes] at less
  rw [next, if_neg (by simp [isOpen, good])]
  by_cases inHeader : n < kRecordHeaderSize
  · have got : (r.rest.take kRecordHeaderSize).length = n := by
      rw [rest, List.take_take, List.length_take, record.length_bytes]
      omega
    simp only [readBytes, got]
    rw [if_neg (by omega), if_pos (by omega)]
    exact ⟨_, rfl, by simp [str]⟩
  · have head : r.rest.take kRecordHeaderSize = encodeRecordHeader record.hdr := by
      rw [rest, List.take_take, Nat.min_eq_left (by omega), Record.bytes, ← len, List.take_left]
    have behind : (r.rest.drop kRecordHeaderSize) = record.payload.take (n - kRecordHeaderSize) := by
      rw [rest, List.drop_take, Record.bytes, ← len, List.drop_left]
    simp only [readBytes, head, behind, len, decodeRecordHeader_encode, bind, Except.bind]
    rw [if_neg (by decide), if_neg (by simp), if_neg (by simp)]
    have positive : record.hdr.payloadLength > 0 := by
      apply UInt32.lt_iff_toNat_lt.2
      rw [sized]
      exact show 0 < record.payload.length by omega
    have got : ((record.payload.take (n - kRecordHeaderSize)).take record.hdr.payloadLength.toNat).length ≠
        record.hdr.payloadLength.toNat := by
      rw [sized, List.take_take, List.length_take]
      omega
    rw [if_pos positive, if_pos got]
    exact ⟨_, rfl, by simp [str]⟩

/-- Reading the first `n` bytes of a list of records gives those that lie wholly within
them, and an error just if they end within one. -/
theorem readAll_take (rs : List Record) (sized : ∀ record ∈ rs, record.Sized) :
    ∀ (n fuel : Nat) (r : CaptureReader), r.isOpen = true → r.error = [] →
      r.rest = (rs.flatMap Record.bytes).take n → r.rest.length < fuel →
      ∃ r', readAll fuel r = .ok (r', Record.whole rs n) ∧
        (r'.error = [] ↔ ((Record.whole rs n).flatMap Record.bytes).length = r.rest.length) := by
  induction rs with
  | nil =>
    intro n fuel r isOpen good rest enough
    have empty : r.rest = [] := by simpa using rest
    obtain ⟨fuel, rfl⟩ := Nat.exists_eq_succ_of_ne_zero (show fuel ≠ 0 by omega)
    refine ⟨r, ?_, by simp [good, Record.whole, empty]⟩
    simp only [readAll, next_end isOpen good empty, bind, Except.bind]
    rfl
  | cons record rs ih =>
    intro n fuel r isOpen good rest enough
    obtain ⟨fuel, rfl⟩ := Nat.exists_eq_succ_of_ne_zero (show fuel ≠ 0 by omega)
    have own := sized record List.mem_cons_self
    have len := record.length_bytes
    rw [List.flatMap_cons, List.take_append] at rest
    by_cases fits : record.bytes.length ≤ n
    · rw [List.take_of_length_le fits] at rest
      generalize behind : (rs.flatMap Record.bytes).take (n - record.bytes.length) = tail at rest
      have size : r.rest.length = record.bytes.length + tail.length := by rw [rest, List.length_append]
      have head : record.bytes.length = kRecordHeaderSize + record.payload.length := len
      have fewer : tail.length < fuel := by unfold kRecordHeaderSize at head; omega
      obtain ⟨r', ran, clean⟩ := ih (fun d hd => sized d (List.mem_cons_of_mem _ hd)) (n - record.bytes.length) fuel
        { r with rest := tail } isOpen good behind.symm fewer
      refine ⟨r', ?_, ?_⟩
      · simp only [readAll, next_record isOpen good own rest, ran, bind, Except.bind, Record.whole, if_pos fits]
      · rw [clean, Record.whole, if_pos fits, List.flatMap_cons, List.length_append, size]
        exact (Nat.add_left_cancel_iff).symm
    · have outside : (rs.flatMap Record.bytes).take (n - record.bytes.length) = [] := by
        rw [Nat.sub_eq_zero_of_le (by omega), List.take_zero]
      rw [outside, List.append_nil] at rest
      have cut : Record.whole (record :: rs) n = [] := by rw [Record.whole, if_neg fits]
      have size : r.rest.length = n := by rw [rest, List.length_take]; omega
      rw [cut]
      rcases Nat.eq_zero_or_pos n with rfl | pos
      · refine ⟨r, ?_, by simp [good, size]⟩
        simp only [readAll, next_end isOpen good (List.length_eq_zero_iff.1 size), bind, Except.bind]
      · obtain ⟨r', ran, bad⟩ := next_short isOpen good own pos (by omega) rest
        refine ⟨r', ?_, ?_⟩
        · simp only [readAll, ran, bind, Except.bind]
        · simp only [bad, false_iff, List.flatMap_nil, List.length_nil, size]
          omega

end Next

section File

variable {h : FileHeader} (version : h.version = kFormatVersion) (size : h.headerLength.toNat = kFileHeaderSize)
include version size

theorem openFile_header (path tail : Bytes) : openFile {} path (.ok (encodeFileHeader h ++ tail)) =
    .ok ({ isOpen := true, rest := tail, fileHeader := h }, true) := by
  have len := length_encodeFileHeader h
  have head : (encodeFileHeader h ++ tail).take kFileHeaderSize = encodeFileHeader h := by rw [← len, List.take_left]
  have behind : (encodeFileHeader h ++ tail).drop kFileHeaderSize = tail := by rw [← len, List.drop_left]
  simp only [openFile, readBytes, head, behind, len, decodeFileHeader_encode h {} version size.ge, bind, Except.bind]
  rw [if_neg (by simp), if_neg (by simp), if_neg (by omega)]

/-- The first `n` bytes of a file: the file is not accepted if they end within its header,
otherwise the records that lie wholly within them are read, and an error follows just if
they end within a record. -/
theorem readFile_take (rs : List Record) (sized : ∀ record ∈ rs, record.Sized) (path : Bytes) (n : Nat) :
    ∃ r, readFile path (.ok ((encodeFileHeader h ++ rs.flatMap Record.bytes).take n)) =
        .ok (r, Record.whole rs (n - kFileHeaderSize)) ∧
      (n < kFileHeaderSize → r.isOpen = true ∧ r.error ≠ []) ∧
      (kFileHeaderSize ≤ n → (r.error = [] ↔ ((Record.whole rs (n - kFileHeaderSize)).flatMap Record.bytes).length =
        min (n - kFileHeaderSize) (rs.flatMap Record.bytes).length)) := by
  have len := length_encodeFileHeader h
  by_cases short : n < kFileHeaderSize
  · have cut : Record.whole rs (n - kFileHeaderSize) = [] := by
      rw [Nat.sub_eq_zero_of_le short.le]
      cases rs with
      | nil => rfl
      | cons record rs =>
        rw [Record.whole, if_neg]
        rw [record.length_bytes, kRecordHeaderSize]
        omega
    have got : (((encodeFileHeader h ++ rs.flatMap Record.bytes).take n).take kFileHeaderSize).length = n := by
      rw [List.take_take, List.length_take, List.length_append, len]
      omega
    rw [cut]
    refine ⟨{ isOpen := true, rest := ((encodeFileHeader h ++ rs.flatMap Record.bytes).take n).drop kFileHeaderSize,
              error := str "short file header" }, ?_, fun _ => ⟨rfl, by simp [str]⟩, fun long => absurd long (by omega)⟩
    simp only [readFile, openFile, readBytes, got, bind, Except.bind]
    rw [if_pos (by omega)]
    rfl
  · have split : (encodeFileHeader h ++ rs.flatMap Record.bytes).take n =
        encodeFileHeader h ++ (rs.flatMap Record.bytes).take (n - kFileHeaderSize) := by
      rw [List.take_append, len, List.take_of_length_le (by omega)]
    obtain ⟨r, ran, clean⟩ := readAll_take rs sized (n - kFileHeaderSize)
      (((rs.flatMap Record.bytes).take (n - kFileHeaderSize)).length + 1)
      { isOpen := true, rest := (rs.flatMap Record.bytes).take (n - kFileHeaderSize), fileHeader := h } rfl rfl rfl
      (Nat.lt_succ_self _)
    refine ⟨r, ?_, fun less => absurd less short, fun _ => ?_⟩
    · rw [readFile, split, openFile_header version size]
      simpa only [bind, Except.bind, if_true] using ran
    · rw [clean, List.length_take]

end File

end CaptureReader

end IpcRelay.Capture
