import IpcRelay.Common.ByteOrder
import IpcRelay.Common.Config

/-!
# Capture file (`capture_format.cpp`, `capture_writer.hpp`, `capture_writer.cpp`)

The writer puts the file header and the records through stdio, any call of
which may fail: `Stdio` holds the outcomes of the calls that one operation
makes. `handed` are the bytes that `fwrite` took since the file was created,
of which the file on disk is a prefix.
-/

namespace IpcRelay.Capture

open Overlay

def kFileMagic : UInt32 := 0x50434D5A
def kRecordMagic : UInt32 := 0x52434D5A
def kFormatVersion : UInt16 := 1
def kFileHeaderSize : Nat := 32
def kRecordHeaderSize : Nat := 32

structure FileHeader where
  version : UInt16 := kFormatVersion
  headerLength : UInt16 := UInt16.ofNat kFileHeaderSize
  createdNs : UInt64 := 0
  wireVersion : UInt16 := 0
  deriving DecidableEq, Repr

structure RecordHeader where
  sourceId : UInt32 := 0
  sequence : UInt64 := 0
  timestampNs : UInt64 := 0
  payloadLength : UInt32 := 0
  flags : UInt16 := 0
  deriving DecidableEq, Repr

/-- `encode_file_header`. -/
def encodeFileHeader (h : FileHeader) : Bytes :=
  let out := List.replicate kFileHeaderSize 0
  let out := splice out 0 (putU32le kFileMagic)
  let out := splice out 4 (putU16le h.version)
  let out := splice out 6 (putU16le h.headerLength)
  let out := splice out 8 (putU64le h.createdNs)
  splice out 16 (putU16le h.wireVersion)

/-- `encode_record_header`: all `kRecordHeaderSize` bytes of the output are overwritten. -/
def encodeRecordHeader (h : RecordHeader) : Bytes :=
  let out := List.replicate kRecordHeaderSize 0
  let out := splice out 0 (putU32le kRecordMagic)
  let out := splice out 4 (putU32le h.sourceId)
  let out := splice out 8 (putU64le h.sequence)
  let out := splice out 16 (putU64le h.timestampNs)
  let out := splice out 24 (putU32le h.payloadLength)
  let out := splice out 28 (putU16le h.flags)
  splice out 30 (putU16le 0)

/-- The bytes of a record: its header and its payload. -/
def recordBytes (hdr : RecordHeader) (payload : Bytes) : Bytes :=
  encodeRecordHeader { hdr with payloadLength := UInt32.ofNat payload.length } ++ payload

/-- The fields in the order of their offsets, and the reserved bytes. -/
theorem encodeFileHeader_eq (h : FileHeader) : encodeFileHeader h =
    putU32le kFileMagic ++ putU16le h.version ++ putU16le h.headerLength ++ putU64le h.createdNs ++
    putU16le h.wireVersion ++ List.replicate 14 0 := by
  simp only [encodeFileHeader, kFileHeaderSize, splice_empty, splice_fill, List.length_append, length_putU16le,
    length_putU32le, length_putU64le, Nat.reduceAdd, Nat.reduceSub]

theorem encodeRecordHeader_eq (h : RecordHeader) : encodeRecordHeader h =
    putU32le kRecordMagic ++ putU32le h.sourceId ++ putU64le h.sequence ++ putU64le h.timestampNs ++
    putU32le h.payloadLength ++ putU16le h.flags ++ putU16le 0 := by
  simp only [encodeRecordHeader, kRecordHeaderSize, splice_empty, splice_fill, List.length_append, length_putU16le,
    length_putU32le, length_putU64le, Nat.reduceAdd, Nat.reduceSub, List.replicate_zero, List.append_nil]

@[simp] theorem length_encodeFileHeader (h : FileHeader) : (encodeFileHeader h).length = kFileHeaderSize := by
  simp [encodeFileHeader_eq, kFileHeaderSize]

@[simp] theorem length_encodeRecordHeader (h : RecordHeader) :
    (encodeRecordHeader h).length = kRecordHeaderSize := by
  simp [encodeRecordHeader_eq, kRecordHeaderSize]

theorem length_recordBytes (hdr : RecordHeader) (payload : Bytes) :
    (recordBytes hdr payload).length = kRecordHeaderSize + payload.length := by
  simp [recordBytes]

/-- An `fwrite` that took only part of its bytes, with the text of the error. -/
structure ShortWrite where
  taken : Nat
  error : Bytes
  deriving DecidableEq, Repr

/-- An `fsync` that failed; `notSupported` is `errno` being `EINVAL` or `EROFS`. -/
structure SyncError where
  notSupported : Bool
  error : Bytes
  deriving DecidableEq, Repr

/-- What the calls of one operation answer: `none` is success. -/
structure Stdio where
  createdNs : UInt64 := 0
  fopen : Option Bytes := none
  fwriteHeader : Option ShortWrite := none
  fwritePayload : Option ShortWrite := none
  fflush : Option Bytes := none
  fsync : Option SyncError := none
  fclose : Option Bytes := none
  deriving DecidableEq, Repr

structure CaptureWriter where
  /-- `file_` is not null. -/
  isOpen : Bool := false
  path : Bytes := []
  lastError : Bytes := []
  failed : Bool := false
  recordsWritten : Nat := 0
  bytesWritten : Nat := 0
  handed : Bytes := []
  deriving DecidableEq, Repr

namespace CaptureWriter

def fail (w : CaptureWriter) (what : Bytes) : CaptureWriter := { w with failed := true, lastError := what }

/-- `fwrite(data, 1, n, file_)`, with the error if it did not take all bytes. -/
def fwrite (w : CaptureWriter) (outcome : Option ShortWrite) (data : Bytes) : CaptureWriter × Option Bytes :=
  match outcome with
  | none => ({ w with handed := w.handed ++ data }, none)
  | some short =>
    ({ w with handed := w.handed ++ data.take short.taken },
      if short.taken < data.length then some short.error else none)

/-- `open`. -/
def openFile (w : CaptureWriter) (path : Bytes) (wireVersion : UInt16) (io : Stdio) : CaptureWriter × Bool :=
  if w.isOpen then (w.fail (str "capture file already open"), false)
  else
    let w := { w with failed := false, lastError := [], path := path, recordsWritten := 0, bytesWritten := 0 }
    match io.fopen with
    | some err => (w.fail (str "open " ++ quoted path ++ str ": " ++ err), false)
    | none =>
      let w := { w with isOpen := true, handed := [] }
      let h : FileHeader := { createdNs := io.createdNs, wireVersion := wireVersion }
      match w.fwrite io.fwriteHeader (encodeFileHeader h) with
      | (w, some err) =>
        ({ w.fail (str "write header " ++ quoted path ++ str ": " ++ err) with isOpen := false }, false)
      | (w, none) => ({ w with bytesWritten := w.bytesWritten + kFileHeaderSize }, true)

/-- A record of `len` payload bytes was written. -/
def countRecord (w : CaptureWriter) (len : Nat) : CaptureWriter :=
  { w with recordsWritten := w.recordsWritten + 1, bytesWritten := w.bytesWritten + (kRecordHeaderSize + len) }

/-- `write_record`; it reads the first `len` bytes of `payload`. -/
def writeRecord (w : CaptureWriter) (hdr : RecordHeader) (payload : Bytes) (len : Nat) (io : Stdio) :
    Exec (CaptureWriter × Bool) :=
  if ¬ w.isOpen ∨ w.failed then .ok (w, false)
  else
    let h := { hdr with payloadLength := UInt32.ofNat len }
    match w.fwrite io.fwriteHeader (encodeRecordHeader h) with
    | (w, some err) => .ok (w.fail (str "write record header: " ++ err), false)
    | (w, none) =>
      if len > 0 then do
        match w.fwrite io.fwritePayload (← slice payload 0 len) with
        | (w, some err) => .ok (w.fail (str "write record payload: " ++ err), false)
        | (w, none) => .ok (w.countRecord len, true)
      else .ok (w.countRecord len, true)

/-- `flush`. -/
def flush (w : CaptureWriter) (sync : Bool) (io : Stdio) : CaptureWriter × Bool :=
  if ¬ w.isOpen then (w, false)
  else match io.fflush with
    | some err => (w.fail (str "flush: " ++ err), false)
    | none =>
      match io.fsync with
      | some e => if sync then (w.fail (str "fsync: " ++ e.error), false) else (w, true)
      | none => (w, true)

/-- `close`. -/
def close (w : CaptureWriter) (io : Stdio) : CaptureWriter × Bool :=
  if ¬ w.isOpen then (w, true)
  else
    let (w, flushed) := match io.fflush with
      | some err => (w.fail (str "flush on close: " ++ err), false)
      | none => (w, true)
    let (w, synced) := match io.fsync with
      | some e => if e.notSupported then (w, true) else (w.fail (str "fsync on close: " ++ e.error), false)
      | none => (w, true)
    let (w, closed) := match io.fclose with
      | some err => (w.fail (str "close: " ++ err), false)
      | none => (w, true)
    ({ w with isOpen := false }, flushed && synced && closed)

/-- A payload of at least `len` bytes is read inside its range. -/
theorem writeRecord_total (w : CaptureWriter) (hdr : RecordHeader) {payload : Bytes} {len : Nat}
    (fits : len ≤ payload.length) (io : Stdio) : ∃ w' ok, w.writeRecord hdr payload len io = .ok (w', ok) := by
  unfold writeRecord
  split
  · exact ⟨_, _, rfl⟩
  · dsimp only
    split
    · exact ⟨_, _, rfl⟩
    · split
      · rw [slice, if_pos (by omega)]
        simp only [bind, Except.bind]
        split <;> exact ⟨_, _, rfl⟩
      · exact ⟨_, _, rfl⟩

section Cases

variable {w : CaptureWriter} {path : Bytes} {version : UInt16} {io : Stdio} {hdr : RecordHeader} {payload : Bytes}

/-- Whether opening the file works: `fopen` does, and the header is written whole. -/
def Opens (io : Stdio) : Prop := io.fopen = none ∧ ∀ short ∈ io.fwriteHeader, kFileHeaderSize ≤ short.taken

/-- Whether a flush works. -/
def Flushes (sync : Bool) (io : Stdio) : Prop := io.fflush = none ∧ (sync = true → io.fsync = none)

/-- The file header that `open` writes. -/
def fileHeader (version : UInt16) (io : Stdio) : FileHeader := { createdNs := io.createdNs, wireVersion := version }

/-- One `fwrite` either takes all bytes or reports an error and takes fewer. -/
theorem fwrite_cases (w : CaptureWriter) (outcome : Option ShortWrite) (data : Bytes) :
    ((∀ short ∈ outcome, data.length ≤ short.taken) ∧
      w.fwrite outcome data = ({ w with handed := w.handed ++ data }, none)) ∨
    ∃ n err, n < data.length ∧ (∃ short ∈ outcome, short.taken = n) ∧
      w.fwrite outcome data = ({ w with handed := w.handed ++ data.take n }, some err) := by
  cases outcome with
  | none => exact .inl ⟨by simp, rfl⟩
  | some short =>
    by_cases all : data.length ≤ short.taken
    · refine .inl ⟨by simpa using all, ?_⟩
      simp [fwrite, List.take_of_length_le all, Nat.not_lt.2 all]
    · refine .inr ⟨short.taken, short.error, by omega, ⟨short, rfl, rfl⟩, ?_⟩
      simp [fwrite, Nat.not_le.1 all]

/-- What `open` does to a writer that has no file. -/
inductive OpenCase (w : CaptureWriter) (path : Bytes) (version : UInt16) (io : Stdio) : CaptureWriter → Bool → Prop
  | refused {err : Bytes} (bad : ¬ Opens io) :
      OpenCase w path version io { w with
        failed := true, lastError := err, path := path, recordsWritten := 0, bytesWritten := 0 } false
  | short {err : Bytes} {n : Nat} (bad : ¬ Opens io) (less : n < kFileHeaderSize) :
      OpenCase w path version io { w with
        failed := true, lastError := err, path := path, recordsWritten := 0, bytesWritten := 0
        handed := (encodeFileHeader (fileHeader version io)).take n } false
  | opened (good : Opens io) :
      OpenCase w path version io { w with
        isOpen := true, failed := false, lastError := [], path := path, recordsWritten := 0
        bytesWritten := kFileHeaderSize, handed := encodeFileHeader (fileHeader version io) } true

theorem openFile_cases (closed : w.isOpen = false) (path : Bytes) (version : UInt16) (io : Stdio) :
    OpenCase w path version io (w.openFile path version io).1 (w.openFile path version io).2 := by
  unfold openFile
  rw [if_neg (by simp [closed])]
  dsimp only
  cases hopen : io.fopen with
  | some err =>
    have case : OpenCase w path version io _ false :=
      @OpenCase.refused w path version io (str "open " ++ quoted path ++ str ": " ++ err) (by simp [Opens, hopen])
    simpa [fail, closed] using case
  | none =>
    dsimp only
    rcases fwrite_cases { w with
        isOpen := true, path := path, lastError := [], failed := false, recordsWritten := 0, bytesWritten := 0
        handed := [] } io.fwriteHeader (encodeFileHeader (fileHeader version io)) with
      ⟨whole, done⟩ | ⟨n, err, less, ⟨short, mem, rfl⟩, done⟩
    · have case : OpenCase w path version io _ true := .opened ⟨hopen, by simpa using whole⟩
      rw [fileHeader] at done
      simpa [done, fileHeader] using case
    · have bad : ¬ Opens io := by
        rintro ⟨-, whole⟩
        have := whole short mem
        simp only [length_encodeFileHeader] at less
        omega
      have case : OpenCase w path version io _ false :=
        @OpenCase.short w path version io (str "write header " ++ quoted path ++ str ": " ++ err) _ bad (by simpa using less)
      rw [fileHeader] at done
      simpa [done, fail, closed, fileHeader] using case

/-- What `write_record` does to a writer whose file is open and has not failed: `bytes` are
those of the whole record. -/
inductive WriteCase (w : CaptureWriter) (bytes : Bytes) : CaptureWriter → Bool → Prop
  | short {err : Bytes} {n : Nat} (less : n < bytes.length) :
      WriteCase w bytes { w with failed := true, lastError := err, handed := w.handed ++ bytes.take n } false
  | written :
      WriteCase w bytes { w with
        recordsWritten := w.recordsWritten + 1, bytesWritten := w.bytesWritten + bytes.length
        handed := w.handed ++ bytes } true

theorem writeRecord_cases (isOpen : w.isOpen = true) (working : w.failed = false) (hdr : RecordHeader) {len : Nat}
    (fits : len ≤ payload.length) (io : Stdio) :
    ∃ w' ok, w.writeRecord hdr payload len io = .ok (w', ok) ∧
      WriteCase w (recordBytes hdr (payload.take len)) w' ok := by
  have len' : (payload.take len).length = len := by simp [fits]
  have read : slice payload 0 len = .ok (payload.take len) := by rw [slice, if_pos (by omega)]; rfl
  have size := length_recordBytes hdr (payload.take len)
  have bytes : recordBytes hdr (payload.take len) =
      encodeRecordHeader { hdr with payloadLength := UInt32.ofNat len } ++ payload.take len := by
    rw [recordBytes, len']
  unfold writeRecord
  rw [if_neg (by simp [isOpen, working])]
  dsimp only
  rcases fwrite_cases w io.fwriteHeader (encodeRecordHeader { hdr with payloadLength := UInt32.ofNat len }) with
    ⟨-, done⟩ | ⟨n, err, less, -, done⟩
  · rw [done]
    dsimp only
    by_cases positive : len > 0
    · rw [if_pos positive, read]
      simp only [bind, Except.bind]
      rcases fwrite_cases { w with
          handed := w.handed ++ encodeRecordHeader { hdr with payloadLength := UInt32.ofNat len } }
          io.fwritePayload (payload.take len) with ⟨-, done'⟩ | ⟨n, err, less, -, done'⟩
      · rw [done']
        refine ⟨_, _, rfl, ?_⟩
        have case : WriteCase w (recordBytes hdr (payload.take len)) _ true := .written
        rw [size, len', bytes] at case
        simpa [countRecord, bytes] using case
      · rw [done']
        refine ⟨_, _, rfl, ?_⟩
        have part : (recordBytes hdr (payload.take len)).take (kRecordHeaderSize + n) =
            encodeRecordHeader { hdr with payloadLength := UInt32.ofNat len } ++ (payload.take len).take n := by
          rw [bytes, List.take_append]
          simp
        have case : WriteCase w (recordBytes hdr (payload.take len)) _ false :=
          @WriteCase.short w _ (str "write record payload: " ++ err) (kRecordHeaderSize + n) (by omega)
        rw [part] at case
        simpa [fail] using case
    · obtain rfl : len = 0 := by omega
      rw [if_neg positive]
      refine ⟨_, _, rfl, ?_⟩
      have case : WriteCase w (recordBytes hdr (payload.take 0)) _ true := .written
      rw [size, len', bytes] at case
      rw [bytes]
      simpa [countRecord] using case
  · rw [done]
    refine ⟨_, _, rfl, ?_⟩
    have part : (recordBytes hdr (payload.take len)).take n =
        (encodeRecordHeader { hdr with payloadLength := UInt32.ofNat len }).take n := by
      rw [bytes, List.take_append_of_le_length less.le]
    rw [length_encodeRecordHeader] at less
    have case : WriteCase w (recordBytes hdr (payload.take len)) _ false :=
      @WriteCase.short w _ (str "write record header: " ++ err) n (by omega)
    rw [part] at case
    simpa [fail] using case

/-- What `flush` does to an open file. -/
inductive FlushCase (w : CaptureWriter) (sync : Bool) (io : Stdio) : CaptureWriter → Bool → Prop
  | failed {err : Bytes} (bad : ¬ Flushes sync io) :
      FlushCase w sync io { w with failed := true, lastError := err } false
  | flushed (good : Flushes sync io) : FlushCase w sync io w true

theorem flush_cases (isOpen : w.isOpen = true) (sync : Bool) (io : Stdio) :
    FlushCase w sync io (w.flush sync io).1 (w.flush sync io).2 := by
  unfold flush
  rw [if_neg (by simp [isOpen])]
  cases hf : io.fflush with
  | some err => exact .failed (by simp [Flushes, hf])
  | none =>
    cases hs : io.fsync with
    | none => exact .flushed (by simp [Flushes, hf, hs])
    | some e =>
      cases sync with
      | true => exact .failed (by simp [Flushes, hs])
      | false => exact .flushed (by simp [Flushes, hf])

/-- What `close` does to an open file. -/
inductive CloseCase (w : CaptureWriter) : CaptureWriter → Bool → Prop
  | failed {err : Bytes} : CloseCase w { w with isOpen := false, failed := true, lastError := err } false
  | closed : CloseCase w { w with isOpen := false } true

theorem close_cases (isOpen : w.isOpen = true) (io : Stdio) : CloseCase w (w.close io).1 (w.close io).2 := by
  unfold close
  rw [if_neg (by simp [isOpen])]
  cases io.fflush <;> cases hs : io.fsync <;> cases io.fclose <;> dsimp only [fail] <;>
    first | exact .failed | exact .closed | (split <;> first | exact .failed | exact .closed)

end Cases

end CaptureWriter

end IpcRelay.Capture
