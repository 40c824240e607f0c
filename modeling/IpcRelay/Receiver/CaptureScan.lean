import IpcRelay.Receiver.CaptureFile

/-!
# The contents of a capture file

`headOf` says what stands at the beginning of any byte string behind a file
header: a record, or the reason why there is none. `Scans` takes a byte string
apart so, to its end or to the first defect, and the reader does the same
(`readAll_scans`). `capture_truncation` is the scan of a part of a file that the
writer produced.
-/

namespace IpcRelay.Capture

open LittleEndian

/-- Why there is no further record. -/
inductive Ending where
  | clean
  | shortHeader
  | badMagic
  | shortPayload
  deriving DecidableEq, Repr

/-- What the reader reports. -/
def Ending.text : Ending → Bytes
  | .clean => []
  | .shortHeader => str "truncated record header"
  | .badMagic => str "bad record magic"
  | .shortPayload => str "truncated record payload"

theorem Ending.text_nil {e : Ending} : e.text = [] ↔ e = .clean := by
  cases e <;> decide +kernel

/-- The bytes end within a record. -/
def Ending.Truncated (e : Ending) : Prop := e = .shortHeader ∨ e = .shortPayload

inductive Head where
  | stop (ending : Ending)
  | record (r : Record) (rest : Bytes)

/-- The record at the beginning of the bytes. -/
def headOf (p : Bytes) : Head :=
  let size := field p 24 4
  if p = [] then .stop .clean
  else if p.length < kRecordHeaderSize then .stop .shortHeader
  else if field p 0 4 ≠ kRecordMagic.toNat then .stop .badMagic
  else if p.length < kRecordHeaderSize + size then .stop .shortPayload
  else .record ⟨recordHeaderOf p, (p.drop kRecordHeaderSize).take size⟩ (p.drop (kRecordHeaderSize + size))

/-- The records of a byte string, up to the first defect. -/
inductive Scans : Bytes → List Record → Ending → Prop where
  | stop {p : Bytes} {e : Ending} (head : headOf p = .stop e) : Scans p [] e
  | record {p rest : Bytes} {r : Record} {rs : List Record} {e : Ending} (head : headOf p = .record r rest)
      (behind : Scans rest rs e) : Scans p (r :: rs) e

section Head

variable {p rest : Bytes} {r : Record} {e : Ending}

/-- A record takes up its header at least. -/
theorem headOf_behind (head : headOf p = .record r rest) : rest.length + kRecordHeaderSize ≤ p.length := by
  unfold headOf at head
  simp only at head
  split at head
  · cases head
  · split at head
    · cases head
    · split at head
      · cases head
      · split at head
        · cases head
        · cases head
          rw [List.length_drop]
          omega

theorem headOf_shorter (head : headOf p = .record r rest) : rest.length < p.length := by
  have size : kRecordHeaderSize = 32 := rfl
  have behind := headOf_behind head
  omega

/-- Every byte string has a scan, and only one. -/
theorem scans_total (p : Bytes) : ∃ rs e, Scans p rs e := by
  induction h : p.length using Nat.strong_induction_on generalizing p with
  | _ n ih =>
    cases head : headOf p with
    | stop e => exact ⟨[], e, .stop head⟩
    | record r rest =>
      obtain ⟨rs, e, behind⟩ := ih rest.length (by rw [← h]; exact headOf_shorter head) rest rfl
      exact ⟨r :: rs, e, .record head behind⟩

/-- A field of four bytes is a number of 32 bits. -/
theorem toNat_field (p : Bytes) (off : Nat) : (UInt32.ofNat (field p off 4)).toNat = field p off 4 := by
  apply UInt32.toNat_ofNat_of_lt'
  have lt := ofBytes_lt ((p.drop off).take 4)
  have len : ((p.drop off).take 4).length ≤ 4 := List.length_take_le _ _
  exact lt_of_lt_of_le lt (Nat.pow_le_pow_right (by decide) len)

/-- Only the header is looked at. -/
theorem field_take {n off w : Nat} (within : off + w ≤ n) : field (p.take n) off w = field p off w := by
  rw [field, List.drop_take, List.take_take, Nat.min_eq_left (by omega), ← field]

theorem recordHeaderOf_take : recordHeaderOf (p.take kRecordHeaderSize) = recordHeaderOf p := by
  have size : kRecordHeaderSize = 32 := rfl
  simp (disch := omega) only [recordHeaderOf, field_take]

end Head

namespace CaptureReader

/-- A call of `next` answers what stands at the read position. -/
def Answers (r : CaptureReader) : Head → Prop
  | .stop e => ∃ r', r.next = .ok (r', none) ∧ r'.error = e.text ∧ (e = .clean → r' = r)
  | .record record rest => r.next = .ok ({ r with rest := rest }, some record)

section Next

variable {r : CaptureReader} {e : Ending} {record : Record} {rest : Bytes}
  (isOpen : r.isOpen = true) (good : r.error = [])

include isOpen good

theorem answers_headOf : r.Answers (headOf r.rest) := by
  have size : kRecordHeaderSize = 32 := rfl
  obtain ⟨answer, eq⟩ : ∃ answer, r.next = answer := ⟨_, rfl⟩
  have run := eq
  rw [next, if_neg (by simp [isOpen, good])] at run
  have got : (r.rest.take kRecordHeaderSize).length = min kRecordHeaderSize r.rest.length := List.length_take
  simp only [readBytes, got, List.length_take] at run
  rw [headOf]
  by_cases empty : r.rest = []
  · rw [if_pos empty]
    have nothing : min kRecordHeaderSize r.rest.length = 0 := by rw [empty]; rfl
    simp only [nothing, reduceIte] at run
    refine ⟨_, eq.trans run.symm, good, fun _ => ?_⟩
    obtain ⟨_, _, _, _⟩ := r
    cases empty
    rfl
  · have pos : 0 < r.rest.length := List.length_pos_iff.2 empty
    have something : min kRecordHeaderSize r.rest.length ≠ 0 := by omega
    rw [if_neg empty]
    by_cases short : r.rest.length < kRecordHeaderSize
    · have less : min kRecordHeaderSize r.rest.length ≠ kRecordHeaderSize := by omega
      rw [if_pos short]
      simp only [something, less, ne_eq, not_false_eq_true, reduceIte] at run
      exact ⟨_, eq.trans run.symm, rfl, fun h => by cases h⟩
    · have whole : min kRecordHeaderSize r.rest.length = kRecordHeaderSize := by omega
      have announced : (recordHeaderOf r.rest).payloadLength.toNat = field r.rest 24 4 := toNat_field r.rest 24
      have magic : UInt32.ofNat (field r.rest 0 4) = kRecordMagic ↔ field r.rest 0 4 = kRecordMagic.toNat := by
        rw [← UInt32.toNat_inj, toNat_field]
      rw [if_neg short]
      rw [decodeRecordHeader_eq _ (by omega), field_take (by omega), recordHeaderOf_take, Machine.ok_bind] at run
      simp only [whole, ne_eq, not_true_eq_false, magic, reduceIte] at run
      by_cases bad : field r.rest 0 4 = kRecordMagic.toNat
      · rw [if_neg (not_not.2 bad)]
        simp only [bad, not_true_eq_false, reduceIte, announced, List.drop_drop, List.length_drop] at run
        by_cases empty : (recordHeaderOf r.rest).payloadLength > 0
        · simp only [empty, reduceIte] at run
          by_cases cut : r.rest.length < kRecordHeaderSize + field r.rest 24 4
          · have less : min (field r.rest 24 4) (r.rest.length - kRecordHeaderSize) ≠ field r.rest 24 4 := by omega
            rw [if_pos cut]
            simp only [less, not_false_eq_true, reduceIte] at run
            exact ⟨_, eq.trans run.symm, rfl, fun h => by cases h⟩
          · have all : min (field r.rest 24 4) (r.rest.length - kRecordHeaderSize) = field r.rest 24 4 := by omega
            rw [if_neg cut]
            simp only [all, not_true_eq_false, reduceIte] at run
            exact eq.trans run.symm
        · have zero : field r.rest 24 4 = 0 := by
            rw [← announced]
            by_contra h
            exact empty (UInt32.lt_iff_toNat_lt.2 (Nat.pos_of_ne_zero h))
          rw [zero, if_neg (by omega)]
          simp only [empty, reduceIte] at run
          exact eq.trans run.symm
      · rw [if_pos bad]
        simp only [bad, not_false_eq_true, reduceIte] at run
        exact ⟨_, eq.trans run.symm, rfl, fun h => by cases h⟩

theorem next_record_of (head : headOf r.rest = .record record rest) :
    r.next = .ok ({ r with rest := rest }, some record) := by
  have spec := answers_headOf isOpen good
  rw [head] at spec
  exact spec

/-- Where there is no record the reader stays. -/
theorem next_stop (head : headOf r.rest = .stop e) :
    ∃ r', r.next = .ok (r', none) ∧ r'.error = e.text ∧ r'.next = .ok (r', none) := by
  have spec := answers_headOf isOpen good
  rw [head] at spec
  obtain ⟨r', ran, error, same⟩ := spec
  refine ⟨r', ran, error, ?_⟩
  by_cases clean : e = .clean
  · rw [same clean] at ran ⊢
    exact ran
  · have bad : r'.error ≠ [] := by
      rw [error]
      cases e <;> simp_all [Ending.text, str]
    rw [next, if_pos (.inr bad)]

end Next

/-- The results of `n` calls of `next`. -/
def nexts : Nat → CaptureReader → Exec (CaptureReader × List (Option Record))
  | 0, r => .ok (r, [])
  | n + 1, r => do
    let (r, result) ← r.next
    let (r, results) ← nexts n r
    .ok (r, result :: results)

theorem nexts_stay {r : CaptureReader} (stay : r.next = .ok (r, none)) (n : Nat) :
    nexts n r = .ok (r, List.replicate n none) := by
  induction n with
  | zero => rfl
  | succ n ih =>
    rw [nexts, stay]
    simp only [Machine.ok_bind, ih]
    rfl

/-- The reader takes any bytes apart as the scan does, and stays where it stops. -/
theorem readAll_scans {p : Bytes} {rs : List Record} {e : Ending} (scan : Scans p rs e) :
    ∀ {r : CaptureReader} {fuel : Nat}, r.isOpen = true → r.error = [] → r.rest = p → p.length < fuel →
      ∃ r', readAll fuel r = .ok (r', rs) ∧ r'.error = e.text ∧ r'.next = .ok (r', none) := by
  induction scan with
  | stop head =>
    rintro r (_ | fuel) isOpen good rfl enough
    · omega
    · obtain ⟨r', ran, error, stay⟩ := next_stop isOpen good head
      refine ⟨r', ?_, error, stay⟩
      rw [readAll, ran]
      rfl
  | @record _ rest _ _ _ head _ ih =>
    rintro r (_ | fuel) isOpen good rfl enough
    · omega
    · have shorter := headOf_shorter head
      obtain ⟨r', ran, error, stay⟩ := @ih { r with rest := rest } fuel isOpen good rfl (by omega)
      refine ⟨r', ?_, error, stay⟩
      rw [readAll, next_record_of isOpen good head]
      simp only [Machine.ok_bind, ran]

end CaptureReader

section Written

variable {record : Record}

/-- The fields of an encoded header read back. -/
theorem encodeRecordHeader_fields (h : RecordHeader) :
    field (encodeRecordHeader h) 0 4 = kRecordMagic.toNat ∧ recordHeaderOf (encodeRecordHeader h) = h := by
  have decoded := (decodeRecordHeader_eq {} (length_encodeRecordHeader h).ge).symm.trans
    (decodeRecordHeader_encode h {})
  by_cases magic : UInt32.ofNat (field (encodeRecordHeader h) 0 4) = kRecordMagic
  · rw [if_neg (not_not.2 magic), Except.ok.injEq, Prod.mk.injEq] at decoded
    exact ⟨(toNat_field _ 0).symm.trans (congrArg UInt32.toNat magic), decoded.1⟩
  · rw [if_pos magic, Except.ok.injEq, Prod.mk.injEq] at decoded
    exact absurd decoded.2 (by decide)

/-- What begins with an encoded header has its fields. -/
theorem field_of_header {p : Bytes} {h : RecordHeader} (head : p.take kRecordHeaderSize = encodeRecordHeader h) :
    field p 0 4 = kRecordMagic.toNat ∧ recordHeaderOf p = h ∧ field p 24 4 = h.payloadLength.toNat := by
  obtain ⟨magic, fields⟩ := encodeRecordHeader_fields h
  rw [← head, recordHeaderOf_take] at fields
  rw [← head, field_take (by decide)] at magic
  refine ⟨magic, fields, ?_⟩
  rw [← toNat_field, ← fields]
  rfl

/-- A written record stands at the beginning of its bytes. -/
theorem headOf_bytes (sized : record.Sized) (tail : Bytes) : headOf (record.bytes ++ tail) = .record record tail := by
  have size : kRecordHeaderSize = 32 := rfl
  have len := length_encodeRecordHeader record.hdr
  have long := record.length_bytes
  have take : (record.bytes ++ tail).take kRecordHeaderSize = encodeRecordHeader record.hdr := by
    rw [Record.bytes, List.append_assoc, ← len, List.take_left]
  have drop : (record.bytes ++ tail).drop kRecordHeaderSize = record.payload ++ tail := by
    rw [Record.bytes, List.append_assoc, ← len, List.drop_left]
  obtain ⟨magic, fields, announced⟩ := field_of_header take
  have nonempty : record.bytes ++ tail ≠ [] := by
    apply List.ne_nil_of_length_pos
    rw [List.length_append]
    omega
  rw [headOf, announced, sized, if_neg nonempty, if_neg (by rw [List.length_append]; omega), if_neg (not_not.2 magic),
    if_neg (by rw [List.length_append]; omega), fields, ← List.drop_drop, drop, List.take_left, List.drop_left]

/-- Bytes that end within a record are told from those that end behind one. -/
theorem headOf_cut (sized : record.Sized) {n : Nat} (pos : 0 < n) (less : n < record.bytes.length) :
    ∃ e : Ending, headOf (record.bytes.take n) = .stop e ∧ e.Truncated := by
  have size : kRecordHeaderSize = 32 := rfl
  have len := length_encodeRecordHeader record.hdr
  have long := record.length_bytes
  have cut : (record.bytes.take n).length = n := by rw [List.length_take]; omega
  have nonempty : record.bytes.take n ≠ [] := by
    apply List.ne_nil_of_length_pos
    omega
  rw [headOf, if_neg nonempty, cut]
  by_cases inHeader : n < kRecordHeaderSize
  · exact ⟨.shortHeader, if_pos inHeader, .inl rfl⟩
  · have take : (record.bytes.take n).take kRecordHeaderSize = encodeRecordHeader record.hdr := by
      rw [List.take_take, Nat.min_eq_left (by omega), Record.bytes, ← len, List.take_left]
    obtain ⟨magic, -, announced⟩ := field_of_header take
    rw [if_neg inHeader, if_neg (not_not.2 magic), announced, sized, if_pos (by omega)]
    exact ⟨.shortPayload, rfl, .inr rfl⟩

/-- The first `n` bytes of records: those that lie wholly within them, and whether they end at a boundary. -/
theorem scans_take (rs : List Record) (sized : ∀ record ∈ rs, record.Sized) (n : Nat) :
    ∃ k ≤ rs.length, ∃ e, Scans ((rs.flatMap Record.bytes).take n) (rs.take k) e ∧
      (∀ i < rs.length, i < k ↔ ((rs.take (i + 1)).flatMap Record.bytes).length ≤ n) ∧
      (e = .clean ∨ e.Truncated) ∧
      (n ≤ (rs.flatMap Record.bytes).length → (e = .clean ↔ n = ((rs.take k).flatMap Record.bytes).length)) := by
  induction rs generalizing n with
  | nil =>
    refine ⟨0, le_rfl, .clean, .stop ?_, by simp, .inl rfl, ?_⟩
    · rw [List.flatMap_nil, List.take_nil]
      rfl
    · intro within
      simpa using within
  | cons record rs ih =>
    have own := sized record List.mem_cons_self
    by_cases fits : record.bytes.length ≤ n
    · obtain ⟨k, le, e, scan, inside, cases, clean⟩ :=
        ih (fun r hr => sized r (List.mem_cons_of_mem _ hr)) (n - record.bytes.length)
      refine ⟨k + 1, Nat.succ_le_succ le, e, ?_, ?_, cases, ?_⟩
      · rw [List.flatMap_cons, List.take_append, List.take_of_length_le fits, List.take_succ_cons]
        exact .record (headOf_bytes own _) scan
      · rintro (_ | i) hi
        · simp [fits]
        · rw [Nat.succ_lt_succ_iff, inside i (Nat.lt_of_succ_lt_succ hi), List.take_succ_cons, List.flatMap_cons,
            List.length_append]
          omega
      · intro within
        rw [List.flatMap_cons, List.length_append] at within
        rw [clean (by omega), List.take_succ_cons, List.flatMap_cons, List.length_append]
        omega
    · have short : n < record.bytes.length := Nat.lt_of_not_le fits
      have part : ((record :: rs).flatMap Record.bytes).take n = record.bytes.take n := by
        rw [List.flatMap_cons, List.take_append_of_le_length short.le]
      have outside : ∀ i < (record :: rs).length,
          i < 0 ↔ (((record :: rs).take (i + 1)).flatMap Record.bytes).length ≤ n := by
        intro i _
        rw [List.take_succ_cons, List.flatMap_cons, List.length_append]
        omega
      rcases Nat.eq_zero_or_pos n with rfl | pos
      · refine ⟨0, Nat.zero_le _, .clean, .stop ?_, outside, .inl rfl, fun _ => iff_of_true rfl rfl⟩
        rw [part, List.take_zero]
        rfl
      · obtain ⟨e, head, truncated⟩ := headOf_cut own pos short
        refine ⟨0, Nat.zero_le _, e, .stop (by rw [part]; exact head), outside, .inr truncated, fun _ => ?_⟩
        apply iff_of_false
        · rintro rfl
          rcases truncated with h | h <;> cases h
        · exact pos.ne'

end Written

namespace CaptureWriter

/-- One `write_record` for each record, with the conjunction of the results. -/
def writeAll : List (RecordHeader × Bytes) → CaptureWriter → Exec (CaptureWriter × Bool)
  | [], w => .ok (w, true)
  | (hdr, payload) :: rs, w => do
    let (w, ok) ← w.writeRecord hdr payload payload.length {}
    let (w, all) ← writeAll rs w
    .ok (w, ok && all)

/-- A whole file, no operation of which fails: `open`, the records, `close`. -/
def produce (path : Bytes) (wireVersion : UInt16) (createdNs : UInt64) (rs : List (RecordHeader × Bytes)) :
    Exec (CaptureWriter × Bool) := do
  let (w, opened) := ({} : CaptureWriter).openFile path wireVersion { createdNs := createdNs }
  let (w, written) ← writeAll rs w
  let (w, closed) := w.close {}
  .ok (w, opened && written && closed)

/-- The record of a call of `write_record`: the length is that of the payload. -/
def written (r : RecordHeader × Bytes) : Record where
  hdr := { r.1 with payloadLength := UInt32.ofNat r.2.length }
  payload := r.2

theorem writeAll_handed (rs : List (RecordHeader × Bytes)) :
    ∀ {w : CaptureWriter}, w.isOpen = true → w.failed = false →
      ∃ w', writeAll rs w = .ok (w', true) ∧ w'.isOpen = true ∧ w'.failed = false ∧
        w'.handed = w.handed ++ (rs.map written).flatMap Record.bytes := by
  induction rs with
  | nil =>
    intro w isOpen working
    exact ⟨w, rfl, isOpen, working, (List.append_nil _).symm⟩
  | cons r rs ih =>
    intro w isOpen working
    obtain ⟨hdr, payload⟩ := r
    have one : w.writeRecord hdr payload payload.length {} =
        .ok ({ w with handed := w.handed ++ (written (hdr, payload)).bytes }.countRecord payload.length, true) := by
      have start : ¬ (¬ w.isOpen = true ∨ w.failed = true) := by simp [isOpen, working]
      rw [writeRecord, if_neg start]
      simp only [fwrite]
      by_cases positive : payload.length > 0
      · have read : slice payload 0 payload.length = .ok payload := by
          rw [slice, if_pos (by omega), List.drop_zero, List.take_length]
        rw [if_pos positive, read, Machine.ok_bind]
        simp only [Record.bytes, written, List.append_assoc]
      · obtain rfl : payload = [] := List.length_eq_zero_iff.1 (by omega)
        rw [if_neg positive]
        simp only [Record.bytes, written, List.append_nil]
    obtain ⟨w', ran, isOpen', working', handed⟩ :=
      @ih ({ w with handed := w.handed ++ (written (hdr, payload)).bytes }.countRecord payload.length) isOpen working
    refine ⟨w', ?_, isOpen', working', ?_⟩
    · simp only [writeAll, one, Machine.ok_bind, ran, Bool.and_true]
    · rw [handed, List.map_cons, List.flatMap_cons, ← List.append_assoc]
      rfl

/-- The bytes of the file are those of the header and of the records. -/
theorem produce_handed (path : Bytes) (wireVersion : UInt16) (createdNs : UInt64) (rs : List (RecordHeader × Bytes)) :
    ∃ w, produce path wireVersion createdNs rs = .ok (w, true) ∧ w.failed = false ∧
      w.handed = Receiver.fileBytes { createdNs := createdNs, wireVersion := wireVersion } (rs.map written) := by
  obtain ⟨w, ran, isOpen, working, handed⟩ :=
    @writeAll_handed rs (({} : CaptureWriter).openFile path wireVersion { createdNs := createdNs }).1 rfl rfl
  refine ⟨(w.close {}).1, ?_, ?_, ?_⟩
  · have opened : ({} : CaptureWriter).openFile path wireVersion { createdNs := createdNs } =
        ((({} : CaptureWriter).openFile path wireVersion { createdNs := createdNs }).1, true) := rfl
    have closed : (w.close {}).2 = true := by simp [close, isOpen]
    rw [produce, opened]
    simp only [ran, Machine.ok_bind, closed, Bool.and_true]
  · simp [close, isOpen, working]
  · have same : (w.close {}).1.handed = w.handed := by simp [close, isOpen]
    rw [same, handed]
    rfl

end CaptureWriter

section Law

open CaptureReader CaptureWriter

/-- Where the `i`-th record ends in the file. -/
def recordEnd (rs : List Record) (i : Nat) : Nat := kFileHeaderSize + ((rs.take (i + 1)).flatMap Record.bytes).length

/-- The file header or a record ends here. -/
def Boundary (rs : List Record) (n : Nat) : Prop := n = kFileHeaderSize ∨ ∃ i < rs.length, n = recordEnd rs i

/-- The first `n` bytes of a file with these records, read: `next` is called until it returns false, and `further`
times after that. -/
def ReadBack (rs : List Record) (n : Nat) (r : CaptureReader) : Prop :=
  ∃ k ≤ rs.length, ∃ fuel r', readAll fuel r = .ok (r', rs.take k) ∧
    -- the records read are the first ones, those that lie wholly within the bytes
    (∀ i < rs.length, i < k ↔ recordEnd rs i ≤ n) ∧
    (r'.error = [] ↔ Boundary rs n) ∧
    (¬ Boundary rs n → ∃ e : Ending, e.Truncated ∧ r'.error = e.text) ∧
    ∀ further, nexts further r' = .ok (r', List.replicate further none)

theorem boundary_iff {rs : List Record} {n k : Nat} (le : k ≤ rs.length)
    (inside : ∀ i < rs.length, i < k ↔ recordEnd rs i ≤ n) (long : kFileHeaderSize ≤ n) :
    Boundary rs n ↔ n = kFileHeaderSize + ((rs.take k).flatMap Record.bytes).length := by
  constructor
  · rintro (rfl | ⟨i, lt, here⟩)
    · have nothing : k = 0 := by
        by_contra positive
        have fits := (inside 0 (by omega)).1 (Nat.pos_of_ne_zero positive)
        have long : 0 < ((rs.take 1).flatMap Record.bytes).length := by
          cases rs with
          | nil => exact absurd le (by simpa using positive)
          | cons r rs =>
            rw [List.take_succ_cons, List.flatMap_cons, List.length_append, r.length_bytes, kRecordHeaderSize]
            omega
        rw [recordEnd, Nat.zero_add] at fits
        omega
      rw [nothing, List.take_zero]
      rfl
    · have last : k = i + 1 := by
        have within := (inside i lt).2 here.ge
        by_contra more
        have next := (inside (i + 1) (by omega)).1 (by omega)
        have longer : ((rs.take (i + 1)).flatMap Record.bytes).length <
            ((rs.take (i + 1 + 1)).flatMap Record.bytes).length := by
          have lt' : i + 1 < rs.length := by omega
          rw [List.take_add_one (i := i + 1), List.flatMap_append, List.length_append, List.getElem?_eq_getElem lt']
          simp only [Option.toList_some, List.flatMap_singleton, Record.length_bytes, kRecordHeaderSize]
          omega
        unfold recordEnd at here next
        omega
      rw [last, here, recordEnd]
  · intro here
    cases k with
    | zero => exact .inl (by simpa using here)
    | succ k => exact .inr ⟨k, by omega, here⟩

/-- The reader on the first `n` bytes of a file that was written without failures. -/
theorem capture_truncation (path : Bytes) (wireVersion : UInt16) (createdNs : UInt64)
    (rs : List (RecordHeader × Bytes)) (short : ∀ r ∈ rs, r.2.length < 2 ^ 32) :
    ∃ w, produce path wireVersion createdNs rs = .ok (w, true) ∧ w.failed = false ∧
      ∀ n ≤ w.handed.length, ∃ r ok, CaptureReader.openFile {} path (.ok (w.handed.take n)) = .ok (r, ok) ∧
        (ok = false ↔ n < kFileHeaderSize) ∧ (ok = true → ReadBack (rs.map written) n r) := by
  obtain ⟨w, ran, working, handed⟩ := produce_handed path wireVersion createdNs rs
  refine ⟨w, ran, working, ?_⟩
  intro n within
  have sized : ∀ record ∈ rs.map written, record.Sized := by
    intro record mem
    obtain ⟨r, hr, rfl⟩ := List.mem_map.1 mem
    exact UInt32.toNat_ofNat_of_lt' (short r hr)
  rw [handed, Receiver.fileBytes] at within ⊢
  generalize rs.map written = records at sized within ⊢
  generalize header : ({ createdNs := createdNs, wireVersion := wireVersion } : FileHeader) = h at within ⊢
  have version : h.version = kFormatVersion := by rw [← header]
  have plain : h.headerLength.toNat = kFileHeaderSize := by rw [← header]; rfl
  have len := length_encodeFileHeader h
  rw [List.length_append, len] at within
  by_cases cut : n < kFileHeaderSize
  · have got : (((encodeFileHeader h ++ records.flatMap Record.bytes).take n).take kFileHeaderSize).length = n := by
      rw [List.take_take, List.length_take, List.length_append, len]
      omega
    refine ⟨{ isOpen := true, error := str "short file header",
              rest := ((encodeFileHeader h ++ records.flatMap Record.bytes).take n).drop kFileHeaderSize },
      false, ?_, iff_of_true rfl cut, fun bad => by cases bad⟩
    simp only [CaptureReader.openFile, readBytes, got]
    exact if_pos cut.ne
  · have split : (encodeFileHeader h ++ records.flatMap Record.bytes).take n =
        encodeFileHeader h ++ (records.flatMap Record.bytes).take (n - kFileHeaderSize) := by
      rw [List.take_append, len, List.take_of_length_le (by omega)]
    rw [split]
    refine ⟨_, true, openFile_header version plain path _, by simp [cut], fun _ => ?_⟩
    obtain ⟨k, le, e, scan, inside, kinds, clean⟩ := scans_take records sized (n - kFileHeaderSize)
    have inside' : ∀ i < records.length, i < k ↔ recordEnd records i ≤ n := by
      intro i lt
      rw [inside i lt, recordEnd]
      omega
    obtain ⟨r', read, error, stay⟩ :=
      @readAll_scans _ _ _ scan
        { isOpen := true, rest := (records.flatMap Record.bytes).take (n - kFileHeaderSize), fileHeader := h } _ rfl rfl rfl
        (Nat.lt_succ_self _)
    have boundary : Boundary records n ↔ e = .clean := by
      rw [boundary_iff le inside' (Nat.le_of_not_lt cut), clean (by omega)]
      omega
    have quiet : r'.error = [] ↔ e = .clean := by rw [error, Ending.text_nil]
    refine ⟨k, le, _, r', read, inside', quiet.trans boundary.symm, ?_, nexts_stay stay⟩
    intro away
    rw [boundary] at away
    exact ⟨e, kinds.resolve_left away, error⟩

/-- A record of two bytes and one of none; they are cut behind the first. -/
def labRecords : List (RecordHeader × Bytes) := [({ sourceId := 3 }, [1, 2]), ({ sequence := 1 }, [])]

theorem capture_truncation_lab :
    ∃ w, produce (str "a") 1 7 labRecords = .ok (w, true) ∧ 66 ≤ w.handed.length ∧
      ∃ r, CaptureReader.openFile {} (str "a") (.ok (w.handed.take 66)) = .ok (r, true) ∧
        ReadBack (labRecords.map written) 66 r := by
  obtain ⟨w, ran, -, cut⟩ := capture_truncation (str "a") 1 7 labRecords (by decide)
  obtain ⟨w', ran', -, handed⟩ := produce_handed (str "a") 1 7 labRecords
  rw [ran] at ran'
  cases ran'
  have long : 66 ≤ w.handed.length := by
    simp [handed, Receiver.fileBytes, labRecords, written, Record.bytes, kFileHeaderSize, kRecordHeaderSize]
  obtain ⟨r, ok, opened, fails, reads⟩ := cut 66 long
  cases ok with
  | false => exact absurd (fails.1 rfl) (by decide)
  | true => exact ⟨w, ran, long, r, opened, reads rfl⟩

end Law

end IpcRelay.Capture
