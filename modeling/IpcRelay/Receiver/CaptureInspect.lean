import IpcRelay.Receiver.CaptureScan

/-!
# The second reader of capture files (`tools/capture_inspect.py`)

The inspection tool has a parser of its own. A file object is its contents and
a position, which a seek may put behind the end; numbers are unbounded, and an
error ends the iteration over the records that were yielded before. Both
readers scan a file alike (`iterRecords_scans`), which is `readers_agree`.
-/

namespace IpcRelay.CaptureInspect

open LittleEndian Capture

def fileMagic : Nat := 0x50434D5A
def recordMagic : Nat := 0x52434D5A
def formatVersion : Nat := 1

/-- `FILE_HEADER.size` and `RECORD_HEADER.size`. -/
def fileHeaderSize : Nat := 32
def recordHeaderSize : Nat := 32

/-- `CaptureError`, with the numbers in its text. -/
inductive CaptureError where
  | shortFile
  | badFileMagic (magic : Nat)
  | unsupportedVersion (version : Nat)
  | invalidHeaderLength (length : Nat)
  | truncatedRecordHeader (offset : Nat)
  | badRecordMagic (magic offset : Nat)
  | truncatedPayload (offset expected got : Nat)
  deriving DecidableEq, Repr

/-- `0x%08X`. -/
def hex08 (n : Nat) : Bytes :=
  let digits := (Nat.toDigits 16 n).map Char.toUpper
  str "0x" ++ (digits.leftpad 8 '0').map fun c => UInt8.ofNat c.toNat

def CaptureError.text : CaptureError → Bytes
  | .shortFile => str "file shorter than the 32-byte file header"
  | .badFileMagic magic =>
    str "bad file magic " ++ hex08 magic ++ str " (expected " ++ hex08 fileMagic ++ str ")"
  | .unsupportedVersion version => str "unsupported capture format version " ++ numText version
  | .invalidHeaderLength length => str "invalid header_length " ++ numText length
  | .truncatedRecordHeader offset => str "truncated record header at offset " ++ numText offset
  | .badRecordMagic magic offset => str "bad record magic " ++ hex08 magic ++ str " at offset " ++ numText offset
  | .truncatedPayload offset expected got =>
    str "truncated payload at offset " ++ numText offset ++ str " (expected " ++ numText expected ++
      str " bytes, got " ++ numText got ++ str ")"

/-- A file opened for reading. -/
structure File where
  contents : Bytes
  pos : Nat := 0
  deriving DecidableEq, Repr

namespace File

def read (f : File) (n : Nat) : File × Bytes :=
  let raw := (f.contents.drop f.pos).take n
  ({ f with pos := f.pos + raw.length }, raw)

/-- `seek` with `SEEK_CUR`. -/
def seek (f : File) (n : Nat) : File := { f with pos := f.pos + n }

def tell (f : File) : Nat := f.pos

/-- What is to be read. -/
def rest (f : File) : Bytes := f.contents.drop f.pos

end File

structure Header where
  version : Nat
  headerLength : Nat
  createdNs : Nat
  wireVersion : Nat
  deriving DecidableEq, Repr

/-- The dictionary of a record. -/
structure RecordDict where
  sourceId : Nat
  sequence : Nat
  timestampNs : Nat
  payloadLength : Nat
  flags : Nat
  deriving DecidableEq, Repr

/-- `read_file_header`; `FILE_HEADER` is `<IHHQHH12s`. -/
def readFileHeader (f : File) : Except CaptureError (File × Header) :=
  let (f, raw) := f.read fileHeaderSize
  if raw.length < fileHeaderSize then .error .shortFile
  else
    let magic := field raw 0 4
    let version := field raw 4 2
    let headerLength := field raw 6 2
    let createdNs := field raw 8 8
    let wireVersion := field raw 16 2
    if magic ≠ fileMagic then .error (.badFileMagic magic)
    else if version ≠ formatVersion then .error (.unsupportedVersion version)
    else if headerLength < fileHeaderSize then .error (.invalidHeaderLength headerLength)
    else
      let f := if headerLength > fileHeaderSize then f.seek (headerLength - fileHeaderSize) else f
      .ok (f, ⟨version, headerLength, createdNs, wireVersion⟩)

/-- One round of the loop of `iter_records`: the end, an exception, or what it yields. -/
inductive Round where
  | done
  | raised (e : CaptureError)
  | yielded (f : File) (offset : Nat) (hdr : RecordDict) (payload : Bytes)

/-- `RECORD_HEADER` is `<IIQQIHH`. -/
def iterRound (f : File) : Round :=
  let offset := f.tell
  let (f, raw) := f.read recordHeaderSize
  if raw = [] then .done
  else if raw.length < recordHeaderSize then .raised (.truncatedRecordHeader offset)
  else
    let magic := field raw 0 4
    let payloadLength := field raw 24 4
    if magic ≠ recordMagic then .raised (.badRecordMagic magic offset)
    else
      let (f, payload) := f.read payloadLength
      if payload.length < payloadLength then
        .raised (.truncatedPayload (offset + recordHeaderSize) payloadLength payload.length)
      else
        .yielded f offset
          { sourceId := field raw 4 4, sequence := field raw 8 8, timestampNs := field raw 16 8,
            payloadLength := payloadLength, flags := field raw 28 2 } payload

/-- `iter_records`: what it yields, and the exception that ends it, if any. -/
def iterRecords : Nat → File → Exec (List (Nat × RecordDict × Bytes) × Option CaptureError)
  | 0, _ => .error .diverges
  | fuel + 1, f =>
    match iterRound f with
    | .done => .ok ([], none)
    | .raised e => .ok ([], some e)
    | .yielded f offset hdr payload => do
      let (records, e) ← iterRecords fuel f
      .ok ((offset, hdr, payload) :: records, e)

section Rounds

variable {f : File} {r : Record} {rest : Bytes} {e : Ending}

/-- The numbers of a header in the program. -/
def dictOf (h : RecordHeader) : RecordDict where
  sourceId := h.sourceId.toNat
  sequence := h.sequence.toNat
  timestampNs := h.timestampNs.toNat
  payloadLength := h.payloadLength.toNat
  flags := h.flags.toNat

theorem read_rest (f : File) (n : Nat) : (f.read n).1.rest = f.rest.drop n := by
  simp only [File.read, File.rest, List.drop_drop, List.length_take, List.length_drop]
  rcases Nat.le_total n (f.contents.length - f.pos) with le | ge
  · rw [Nat.min_eq_left le]
  · rw [Nat.min_eq_right ge, List.drop_of_length_le (by omega), List.drop_of_length_le (by omega)]

/-- The widths of the fields are those of the program's integers. -/
theorem toNat_field16 (p : Bytes) (off : Nat) : (UInt16.ofNat (field p off 2)).toNat = field p off 2 := by
  apply UInt16.toNat_ofNat_of_lt'
  have lt := ofBytes_lt ((p.drop off).take 2)
  have len : ((p.drop off).take 2).length ≤ 2 := List.length_take_le _ _
  exact lt_of_lt_of_le lt (Nat.pow_le_pow_right (by decide) len)

theorem toNat_field64 (p : Bytes) (off : Nat) : (UInt64.ofNat (field p off 8)).toNat = field p off 8 := by
  apply UInt64.toNat_ofNat_of_lt'
  have lt := ofBytes_lt ((p.drop off).take 8)
  have len : ((p.drop off).take 8).length ≤ 8 := List.length_take_le _ _
  exact lt_of_lt_of_le lt (Nat.pow_le_pow_right (by decide) len)

theorem dictOf_recordHeaderOf (p : Bytes) : dictOf (recordHeaderOf p) =
    { sourceId := field p 4 4, sequence := field p 8 8, timestampNs := field p 16 8, payloadLength := field p 24 4,
      flags := field p 28 2 } := by
  simp only [dictOf, recordHeaderOf, toNat_field, toNat_field16, toNat_field64]

/-- A round of the loop answers what stands at the position. -/
def Answers (f : File) : Head → Prop
  | .stop e => if e = .clean then iterRound f = .done else ∃ error, iterRound f = .raised error
  | .record r rest => ∃ f', iterRound f = .yielded f' f.tell (dictOf r.hdr) r.payload ∧ f'.rest = rest

theorem answers_headOf (f : File) : Answers f (headOf f.rest) := by
  have size : recordHeaderSize = 32 := rfl
  have size' : kRecordHeaderSize = 32 := rfl
  obtain ⟨round, eq⟩ : ∃ round, iterRound f = round := ⟨_, rfl⟩
  have run := eq
  have raw : (f.read recordHeaderSize).2 = f.rest.take recordHeaderSize := rfl
  have len : (f.rest.take recordHeaderSize).length = min recordHeaderSize f.rest.length := List.length_take
  have behind := read_rest f recordHeaderSize
  rw [iterRound] at run
  generalize f.read recordHeaderSize = g at run raw behind
  obtain ⟨f₁, raw₁⟩ := g
  obtain rfl : raw₁ = _ := raw
  simp only at run behind
  rw [headOf]
  by_cases empty : f.rest = []
  · have nothing : f.rest.take recordHeaderSize = [] := by rw [empty, List.take_nil]
    rw [if_pos empty]
    rw [if_pos nothing] at run
    exact eq.trans run.symm
  · have pos : 0 < f.rest.length := List.length_pos_iff.2 empty
    have something : f.rest.take recordHeaderSize ≠ [] := by
      apply List.ne_nil_of_length_pos
      omega
    rw [if_neg empty]
    rw [if_neg something, len] at run
    by_cases short : f.rest.length < kRecordHeaderSize
    · rw [if_pos short]
      rw [if_pos (by omega)] at run
      exact ⟨_, eq.trans run.symm⟩
    · rw [if_neg short]
      simp (disch := omega) only [field_take] at run
      rw [if_neg (by omega)] at run
      by_cases bad : field f.rest 0 4 ≠ recordMagic
      · have bad' : field f.rest 0 4 ≠ kRecordMagic.toNat := bad
        rw [if_pos bad']
        rw [if_pos bad] at run
        exact ⟨_, eq.trans run.symm⟩
      · have good : ¬ field f.rest 0 4 ≠ kRecordMagic.toNat := bad
        have got : (f₁.read (field f.rest 24 4)).2 = (f.rest.drop kRecordHeaderSize).take (field f.rest 24 4) := by
          rw [← show f₁.rest = f.rest.drop kRecordHeaderSize from behind]
          rfl
        have after := read_rest f₁ (field f.rest 24 4)
        rw [behind, List.drop_drop] at after
        rw [if_neg good]
        rw [if_neg bad] at run
        generalize f₁.read (field f.rest 24 4) = g at run got after
        obtain ⟨f₂, payload⟩ := g
        obtain rfl : payload = _ := got
        simp only [List.length_take, List.length_drop] at run after
        by_cases cut : f.rest.length < kRecordHeaderSize + field f.rest 24 4
        · rw [if_pos cut]
          rw [if_pos (by omega)] at run
          exact ⟨_, eq.trans run.symm⟩
        · rw [if_neg cut]
          rw [if_neg (by omega)] at run
          refine ⟨f₂, ?_, after⟩
          rw [eq, ← run, dictOf_recordHeaderOf]

/-- The iteration over the records scans what is to be read. -/
theorem iterRecords_scans {p : Bytes} {rs : List Record} {e : Ending} (scan : Scans p rs e) :
    ∀ {f : File} {fuel : Nat}, f.rest = p → p.length < fuel →
      ∃ records error, iterRecords fuel f = .ok (records, error) ∧
        records.map Prod.snd = rs.map (fun r => (dictOf r.hdr, r.payload)) ∧ (error = none ↔ e = .clean) := by
  induction scan with
  | @stop p e head =>
    rintro f (_ | fuel) rfl enough
    · omega
    · have answers := answers_headOf f
      rw [head, Answers] at answers
      rw [iterRecords]
      by_cases clean : e = .clean
      · rw [if_pos clean] at answers
        rw [answers]
        exact ⟨[], none, rfl, rfl, iff_of_true rfl clean⟩
      · rw [if_neg clean] at answers
        obtain ⟨error, raised⟩ := answers
        rw [raised]
        exact ⟨[], some error, rfl, rfl, iff_of_false nofun clean⟩
  | @record _ rest r _ _ head _ ih =>
    rintro f (_ | fuel) rfl enough
    · omega
    · have shorter := headOf_shorter head
      have answers := answers_headOf f
      rw [head, Answers] at answers
      obtain ⟨f', yielded, behind⟩ := answers
      obtain ⟨records, error, ran, same, clean⟩ := @ih f' fuel behind (by omega)
      refine ⟨(f.tell, dictOf r.hdr, r.payload) :: records, error, ?_, ?_, clean⟩
      · rw [iterRecords, yielded]
        simp only [ran, Machine.ok_bind]
      · rw [List.map_cons, List.map_cons, same]

end Rounds

section Agreement

open CaptureReader

variable {contents : Bytes}

/-- The header of the program, as the tool shows it. -/
def headerOf (h : FileHeader) : Header where
  version := h.version.toNat
  headerLength := h.headerLength.toNat
  createdNs := h.createdNs.toNat
  wireVersion := h.wireVersion.toNat

/-- A file header that both readers accept. -/
structure Accepted (contents : Bytes) : Prop where
  long : kFileHeaderSize ≤ contents.length
  magic : field contents 0 4 = fileMagic
  version : field contents 4 2 = formatVersion
  size : kFileHeaderSize ≤ field contents 6 2

theorem headerOf_fileHeaderOf (p : Bytes) : headerOf (fileHeaderOf p) =
    ⟨field p 4 2, field p 6 2, field p 8 8, field p 16 2⟩ := by
  simp only [headerOf, fileHeaderOf, toNat_field16, toNat_field64]

theorem fileHeaderOf_take (p : Bytes) : fileHeaderOf (p.take kFileHeaderSize) = fileHeaderOf p := by
  have size : kFileHeaderSize = 32 := rfl
  simp (disch := omega) only [fileHeaderOf, field_take]

/-- The program accepts the file, and stands behind the header. -/
theorem openFile_accepted (path : Bytes) (ok : Accepted contents) : openFile {} path (.ok contents) =
    .ok ({ isOpen := true, rest := contents.drop (field contents 6 2), fileHeader := fileHeaderOf contents }, true) := by
  have size : kFileHeaderSize = 32 := rfl
  obtain ⟨long, magic, version, extent⟩ := ok
  have len : (contents.take kFileHeaderSize).length = kFileHeaderSize := by rw [List.length_take]; omega
  have magic' : UInt32.ofNat (field contents 0 4) = kFileMagic := by
    rw [magic]
    rfl
  have version' : (fileHeaderOf contents).version = kFormatVersion := by
    apply UInt16.toNat_inj.1
    exact (toNat_field16 contents 4).trans version
  have announced : (fileHeaderOf contents).headerLength.toNat = field contents 6 2 := toNat_field16 contents 6
  simp only [openFile, readBytes, len]
  rw [decodeFileHeader_eq _ len.ge, field_take (by omega), fileHeaderOf_take]
  simp only [magic', version', announced, extent, ne_eq, not_true_eq_false, reduceIte, Machine.ok_bind,
    decide_true, Bool.and_self, List.drop_drop]
  by_cases longer : field contents 6 2 > kFileHeaderSize
  · rw [if_pos longer, Nat.add_sub_cancel' extent]
  · have exact' : field contents 6 2 = kFileHeaderSize := by omega
    rw [if_neg longer, exact']

/-- Neither reader goes on behind another header. -/
theorem openFile_refused (path : Bytes) (bad : ¬ Accepted contents) :
    ∃ r, openFile {} path (.ok contents) = .ok (r, false) ∧ r.error ≠ [] := by
  have size : kFileHeaderSize = 32 := rfl
  by_cases long : kFileHeaderSize ≤ contents.length
  · have len : (contents.take kFileHeaderSize).length = kFileHeaderSize := by rw [List.length_take]; omega
    simp only [openFile, readBytes, len]
    rw [decodeFileHeader_eq _ len.ge, field_take (by omega), fileHeaderOf_take]
    by_cases magic : UInt32.ofNat (field contents 0 4) = kFileMagic
    · have refused : ((fileHeaderOf contents).version = kFormatVersion &&
          (fileHeaderOf contents).headerLength.toNat ≥ kFileHeaderSize : Bool) = false := by
        rw [Bool.eq_false_iff]
        intro accepted
        rw [Bool.and_eq_true, decide_eq_true_iff, decide_eq_true_iff] at accepted
        apply bad
        refine ⟨long, ?_, ?_, ?_⟩
        · rw [← toNat_field, magic]
          rfl
        · rw [← toNat_field16]
          exact congrArg UInt16.toNat accepted.1
        · rw [← toNat_field16]
          exact accepted.2
      simp only [magic, ne_eq, not_true_eq_false, reduceIte, Machine.ok_bind, refused]
      exact ⟨_, rfl, by simp [str]⟩
    · simp only [magic, ne_eq, not_false_eq_true, not_true_eq_false, reduceIte, Machine.ok_bind]
      exact ⟨_, rfl, by simp [str]⟩
  · have len : (contents.take kFileHeaderSize).length ≠ kFileHeaderSize := by rw [List.length_take]; omega
    simp only [openFile, readBytes, len, ne_eq, not_false_eq_true, reduceIte]
    exact ⟨_, rfl, by simp [str]⟩

theorem readFileHeader_eq (contents : Bytes) :
    (Accepted contents → ∃ f, readFileHeader { contents := contents } = .ok (f, headerOf (fileHeaderOf contents)) ∧
      f.rest = contents.drop (field contents 6 2)) ∧
    (¬ Accepted contents → ∃ e, readFileHeader { contents := contents } = .error e) := by
  have size : kFileHeaderSize = 32 := rfl
  have size' : fileHeaderSize = 32 := rfl
  obtain ⟨result, eq⟩ : ∃ result, readFileHeader { contents := contents } = result := ⟨_, rfl⟩
  have run := eq
  rw [readFileHeader] at run
  have raw : (File.read { contents := contents } fileHeaderSize).2 = contents.take fileHeaderSize := rfl
  have behind : (File.read { contents := contents } fileHeaderSize).1 =
      ⟨contents, 0 + (contents.take fileHeaderSize).length⟩ := rfl
  have len : (contents.take fileHeaderSize).length = min fileHeaderSize contents.length := List.length_take
  generalize File.read { contents := contents } fileHeaderSize = g at run raw behind
  obtain ⟨f, raw'⟩ := g
  obtain rfl : raw' = _ := raw
  obtain rfl : f = _ := behind
  simp only [len] at run
  by_cases long : kFileHeaderSize ≤ contents.length
  · rw [if_neg (by omega)] at run
    simp (disch := omega) only [field_take] at run
    by_cases magic : field contents 0 4 ≠ fileMagic
    · rw [if_pos magic] at run
      exact ⟨fun ok => absurd ok.magic magic, fun _ => ⟨_, eq.trans run.symm⟩⟩
    · rw [if_neg magic] at run
      by_cases version : field contents 4 2 ≠ formatVersion
      · rw [if_pos version] at run
        exact ⟨fun ok => absurd ok.version version, fun _ => ⟨_, eq.trans run.symm⟩⟩
      · rw [if_neg version] at run
        by_cases short : field contents 6 2 < fileHeaderSize
        · rw [if_pos short] at run
          exact ⟨fun ok => absurd ok.size (by omega), fun _ => ⟨_, eq.trans run.symm⟩⟩
        · have start : 0 + min fileHeaderSize contents.length = fileHeaderSize := by omega
          rw [if_neg short, ← headerOf_fileHeaderOf, start] at run
          refine ⟨fun _ => ⟨_, eq.trans run.symm, ?_⟩, fun bad => absurd ?_ bad⟩
          · split
            · show contents.drop (fileHeaderSize + (field contents 6 2 - fileHeaderSize)) = _
              rw [Nat.add_sub_cancel' (by omega)]
            · show contents.drop fileHeaderSize = _
              rw [show field contents 6 2 = fileHeaderSize by omega]
          · exact ⟨long, not_not.1 magic, not_not.1 version, by omega⟩
  · rw [if_pos (by omega)] at run
    exact ⟨fun ok => absurd ok.long long, fun _ => ⟨_, eq.trans run.symm⟩⟩

/-- What the two readers make of one file. `r` and `ok` are the answer of `CaptureReader::open`. -/
def Agree (contents : Bytes) (r : CaptureReader) (ok : Bool) : Except CaptureError (File × Header) → Prop
  | .error _ => ok = false
  | .ok (f, header) => ok = true ∧ header = headerOf r.fileHeader ∧
      ∃ r' rs records error, readAll (contents.length + 1) r = .ok (r', rs) ∧
        iterRecords (contents.length + 1) f = .ok (records, error) ∧
        records.map Prod.snd = rs.map (fun record => (dictOf record.hdr, record.payload)) ∧
        (error = none ↔ r'.error = [])

/-- On every file the two readers accept the same header, read the same records, and either both reach the end or
both report an error. -/
theorem readers_agree (path contents : Bytes) :
    ∃ r ok, openFile {} path (.ok contents) = .ok (r, ok) ∧
      Agree contents r ok (readFileHeader { contents := contents }) := by
  by_cases accepted : Accepted contents
  · obtain ⟨f, header, behind⟩ := (readFileHeader_eq contents).1 accepted
    refine ⟨_, true, openFile_accepted path accepted, ?_⟩
    rw [header]
    refine ⟨rfl, rfl, ?_⟩
    obtain ⟨rs, e, scan⟩ := scans_total (contents.drop (field contents 6 2))
    have enough : (contents.drop (field contents 6 2)).length < contents.length + 1 := by
      rw [List.length_drop]
      omega
    obtain ⟨r', read, error, -⟩ := @readAll_scans _ _ _ scan
      { isOpen := true, rest := contents.drop (field contents 6 2), fileHeader := fileHeaderOf contents } _ rfl rfl rfl
      enough
    obtain ⟨records, error', iterated, same, clean⟩ := iterRecords_scans scan behind enough
    refine ⟨r', rs, records, error', read, iterated, same, ?_⟩
    rw [clean, error, Ending.text_nil]
  · obtain ⟨e, raised⟩ := (readFileHeader_eq contents).2 accepted
    obtain ⟨r, opened, -⟩ := openFile_refused path accepted
    refine ⟨r, false, opened, ?_⟩
    rw [raised]
    rfl

end Agreement

end IpcRelay.CaptureInspect
