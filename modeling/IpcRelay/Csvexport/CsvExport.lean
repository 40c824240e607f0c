import IpcRelay.Csvexport.Rows
import IpcRelay.Receiver.CaptureInspect

/-!
# The CSV export of a capture (`tools/capture_to_csv/csv_export.cpp`)

`export_capture` writes a row for each record that the reader returns, into the
file of its kind. The loop keeps the file name and the columns from one record
to the next; `write_record` is what one record adds to the files whatever they
were before, and `export_every_record` the result for a whole capture.
-/

namespace IpcRelay.Csvexport

open Testpub Capture

section Files

/-- What the calls of one `write` answer: `none` is success. -/
structure WriteCalls where
  createDirectories : Option Bytes := none
  openFile : Option Bytes := none
  written : Bool := true
  deriving DecidableEq, Repr

structure CsvFiles where
  outDir : Bytes
  /-- What was written to the open file of each stem. -/
  files : KeyMap Bytes Bytes := ∅
  rows : KeyMap Bytes UInt64 := ∅
  error : Bytes := []

namespace CsvFiles

/-- `operator/` of two paths, the second one relative. -/
def joinPath (dir name : Bytes) : Bytes :=
  if dir = [] ∨ dir.getLast? = some 0x2F then dir ++ name else dir ++ str "/" ++ name

/-- `fail`: the first error stays. -/
def fail (c : CsvFiles) (msg : Bytes) : CsvFiles × Bool := ({ c with error := if c.error = [] then msg else c.error }, false)

/-- The file of a stem, opened on first use with its header line. -/
def opened (c : CsvFiles) (stem columns : Bytes) (calls : WriteCalls) : Except Bytes CsvFiles :=
  match c.files.lookup stem with
  | some _ => .ok c
  | none =>
    match calls.createDirectories with
    | some err => .error (str "create " ++ quoted c.outDir ++ str ": " ++ err)
    | none =>
      match calls.openFile with
      | some err => .error (str "open " ++ quoted (joinPath c.outDir (stem ++ str ".csv")) ++ str ": " ++ err)
      | none => .ok { c with files := c.files.insert stem (columns ++ [newline]), rows := c.rows.insert stem 0 }

def write (c : CsvFiles) (stem columns : Bytes) (row : Row) (calls : WriteCalls) : CsvFiles × Bool :=
  match c.opened stem columns calls with
  | .error msg => c.fail msg
  | .ok c =>
    if ¬ calls.written then c.fail (str "write '" ++ stem ++ str ".csv' failed")
    else ({ c with files := KeyMap.update [] c.files stem (· ++ row.line ++ [newline]),
                   rows := KeyMap.update 0 c.rows stem (· + 1) }, true)

/-- `close`, in the order of the stems. -/
def close (c : CsvFiles) (closed : Bytes → Bool) : CsvFiles × Bool :=
  match (c.files.keys.mergeSort fun s t => decide (s ≤ t)).find? fun stem => ¬ closed stem with
  | some stem => c.fail (str "close '" ++ stem ++ str ".csv' failed")
  | none => (c, true)

end CsvFiles

end Files

section Export

structure ExportResult where
  rows : KeyMap Bytes UInt64 := ∅
  error : Bytes := []

/-- What the calls of an export answer: each `write` in turn, and the closing of each file. -/
structure ExportCalls where
  writes : Nat → WriteCalls := fun _ => {}
  closed : Bytes → Bool := fun _ => true

variable (floatText : F32 → Bytes)

/-- The loop of `export_capture`, with the variables that it keeps. -/
def exportLoop (calls : ExportCalls) : Nat → Nat → CaptureReader → CsvFiles → Bytes → Bytes → Exec (CaptureReader × CsvFiles)
  | 0, _, _, _, _, _ => .error .diverges
  | fuel + 1, n, reader, out, stem, columns => do
    match ← reader.next with
    | (reader, none) => .ok (reader, out)
    | (reader, some ⟨hdr, payload⟩) =>
      let row := ({} : Row).fields [numText hdr.sourceId.toNat, numText hdr.sequence.toNat, numText hdr.timestampNs.toNat,
        numText hdr.flags.toNat]
      let (row, stem, columns, decoded) ← decodeTestpub floatText payload row stem columns
      let (row, stem, columns) :=
        if decoded then (row, stem, columns)
        else (row.fields [numText payload.length, hex payload], str "unknown",
          kRecordColumns ++ str ",payload_length,payload_hex")
      let (out, ok) := out.write stem columns row (calls.writes n)
      if ok then exportLoop calls fuel (n + 1) reader out stem columns else .ok (reader, out)

/-- `export_capture`, and the files that it leaves. -/
def exportCapture (path : Bytes) (file : Except Bytes Bytes) (outDir : Bytes) (calls : ExportCalls) :
    Exec (ExportResult × KeyMap Bytes Bytes) := do
  let (reader, ok) ← ({} : CaptureReader).openFile path file
  if ¬ ok then .ok ({ error := reader.error }, ∅)
  else do
    let (reader, out) ← exportLoop floatText calls (reader.rest.length + 1) 0 reader { outDir := outDir } [] []
    let (out, _) := out.close calls.closed
    .ok ({ rows := out.rows, error := if out.error ≠ [] then out.error else reader.error }, out.files)

end Export

section Rows

variable (floatText : F32 → Bytes)

/-- The first four fields of every row. -/
def headTexts (hdr : RecordHeader) : List Bytes :=
  [numText hdr.sourceId.toNat, numText hdr.sequence.toNat, numText hdr.timestampNs.toNat, numText hdr.flags.toNat]

/-- The fields behind them. -/
def payloadTexts (payload : Bytes) : List Bytes :=
  match testpubOf payload with
  | some (h, d) => [numText h.publisherIndex.toNat, numText h.messageIndex.toNat] ++ telemetryTexts floatText d
  | none => [numText payload.length, hex payload]

/-- The row of a record. -/
def rowOf (r : Record) : Bytes := [comma].intercalate (headTexts r.hdr ++ payloadTexts floatText r.payload)

/-- The file of a record. -/
def kindOf (r : Record) : Kind :=
  match testpubOf r.payload with
  | some (_, d) => Kind.ofTelemetry d
  | none => .unknown

/-- The records of a file. -/
def recordsOf (k : Kind) (records : List Record) : List Record := records.filter fun r => kindOf r = k

/-- A file: its header line and a line for each record. -/
def fileOf (k : Kind) (records : List Record) : Bytes :=
  k.columns ++ [newline] ++ records.flatMap fun r => rowOf floatText r ++ [newline]

/-- What an export owes: `records` are those that the reader returned and `readError` is what it reported. -/
structure Exports (records : List Record) (readError : Bytes) (result : ExportResult) (files : KeyMap Bytes Bytes) : Prop where
  /-- Each file has the rows of its records in their order, and exists if there are any. -/
  file : ∀ k : Kind, files.lookup k.stem =
    if recordsOf k records = [] then none else some (fileOf floatText k (recordsOf k records))
  others : ∀ stem : Bytes, (∀ k : Kind, stem ≠ k.stem) → files.lookup stem = none ∧ result.rows.lookup stem = none
  counted : ∀ k : Kind, result.rows.lookup k.stem =
    if recordsOf k records = [] then none else some (UInt64.ofNat (recordsOf k records).length)
  starts : ∀ r ∈ records, headTexts r.hdr <+: (rowOf floatText r).splitOn comma
  /-- A row has as many fields as the header line of its file. -/
  width : ∀ r ∈ records, ((rowOf floatText r).splitOn comma).length = ((kindOf r).columns.splitOn comma).length
  /-- A row is one line, if the texts of floats have no newline. -/
  line : (∀ v, newline ∉ floatText v) → ∀ r ∈ records, newline ∉ rowOf floatText r
  error : result.error ≠ [] ↔ readError ≠ []

theorem headTexts_plain (hdr : RecordHeader) : ∀ t ∈ headTexts hdr, Plain t := by
  simp only [headTexts, List.forall_mem_cons]
  exact ⟨plain_numText _, plain_numText _, plain_numText _, plain_numText _, List.forall_mem_nil _⟩

/-- Every field of a row is plain, or the text of a float. -/
theorem texts_plain (r : Record) : ∀ t ∈ headTexts r.hdr ++ payloadTexts floatText r.payload,
    Plain t ∨ ∃ v, t = floatText v := by
  intro t mem
  rcases List.mem_append.1 mem with mem | mem
  · exact .inl (headTexts_plain r.hdr t mem)
  unfold payloadTexts at mem
  split at mem
  next h d _ =>
    rcases List.mem_append.1 mem with mem | mem
    · left
      rcases List.mem_cons.1 mem with rfl | mem
      · exact plain_numText _
      · rw [List.mem_singleton.1 mem]
        exact plain_numText _
    · exact telemetryTexts_plain floatText d t mem
  next =>
    left
    rcases List.mem_cons.1 mem with rfl | mem
    · exact plain_numText _
    · rw [List.mem_singleton.1 mem]
      exact plain_hex _

theorem str_append (s t : String) : str (s ++ t) = str s ++ str t := by
  rw [str, String.toList_append, List.map_append]
  rfl

/-- The number of commas in each header line. -/
theorem count_columns (k : Kind) : k.columns.count comma = match k with
    | .boardHealth => 25
    | .modeStatus => 15
    | .ptpStats => 19
    | .unknown => 5 := by
  have record : kRecordColumns.count comma = 3 := by decide +kernel
  have testpub : (str ",publisher_index,message_index,").count comma = 3 := by decide +kernel
  cases k with
  | boardHealth =>
    have columns : boardHealthColumns.count comma = 19 := by decide +kernel
    rw [Kind.columns, List.count_append, List.count_append, record, testpub, columns]
  | modeStatus =>
    have columns : kModeStatusColumns.count comma = 9 := by
      rw [kModeStatusColumns, str_append, List.count_append]
      decide +kernel
    rw [Kind.columns, List.count_append, List.count_append, record, testpub, columns]
  | ptpStats =>
    have columns : kPtpStatsColumns.count comma = 13 := by
      rw [kPtpStatsColumns, str_append, str_append, List.count_append, List.count_append]
      decide +kernel
    rw [Kind.columns, List.count_append, List.count_append, record, testpub, columns]
  | unknown =>
    have columns : (str ",payload_length,payload_hex").count comma = 2 := by decide +kernel
    rw [Kind.columns, List.count_append, record, columns]

theorem length_boardHealthTexts (d : BoardHealth) : (boardHealthTexts floatText d).length = 20 := by
  have rails : (d.rails.toList.flatMap fun r => [floatText r.voltageV, floatText r.currentA]).length = 12 := by
    rw [List.length_flatMap]
    have each : (d.rails.toList.map fun r => [floatText r.voltageV, floatText r.currentA].length) = List.replicate 6 2 := by
      refine List.eq_replicate_iff.2 ⟨by rw [List.length_map]; exact d.rails.toList_length, ?_⟩
      intro n mem
      obtain ⟨r, -, rfl⟩ := List.mem_map.1 mem
      rfl
    rw [each]
    rfl
  have temperatures : (d.temperatureC.toList.flatMap fun c => [floatText c]).length = 4 := by
    rw [← List.map_eq_flatMap, List.length_map]
    exact d.temperatureC.toList_length
  rw [boardHealthTexts, List.length_append, List.length_append, List.length_append, rails, temperatures]
  rfl

/-- A row has a field for each column. -/
theorem length_texts (r : Record) : (headTexts r.hdr ++ payloadTexts floatText r.payload).length =
    (kindOf r).columns.count comma + 1 := by
  have head : (headTexts r.hdr).length = 4 := rfl
  rw [List.length_append, head, count_columns, payloadTexts, kindOf]
  cases testpubOf r.payload with
  | none => rfl
  | some found =>
    obtain ⟨h, d⟩ := found
    cases d with
    | boardHealth d =>
      have texts := length_boardHealthTexts floatText d
      change 4 + ([numText h.publisherIndex.toNat, numText h.messageIndex.toNat] ++ boardHealthTexts floatText d).length = 26
      rw [List.length_append, texts]
      rfl
    | modeStatus d => rfl
    | ptpStats d => rfl

theorem length_splitOn (c : UInt8) (l : Bytes) : (l.splitOn c).length = l.count c + 1 := by
  induction l with
  | nil => rfl
  | cons b l ih =>
    rw [List.splitOn_cons_eq_if_modifyHead, List.count_cons]
    split
    next => rw [List.length_cons, ih]
    next => rw [List.length_modifyHead, ih, Nat.add_zero]

/-- The fields of a row are told apart at the commas. -/
theorem splitOn_rowOf (noComma : ∀ v, comma ∉ floatText v) (r : Record) :
    (rowOf floatText r).splitOn comma = headTexts r.hdr ++ payloadTexts floatText r.payload := by
  refine List.splitOn_intercalate comma ?_ (by simp [headTexts])
  intro t mem
  rcases texts_plain floatText r t mem with safe | ⟨v, rfl⟩
  · exact safe.free rfl
  · exact noComma v

end Rows

section Write

variable (floatText : F32 → Bytes)

theorem Kind.stem_injective : Function.Injective Kind.stem := by
  intro j k same
  have lengths := congrArg List.length same
  cases j <;> cases k <;> first | rfl | exact absurd lengths (by decide +kernel)

/-- What the files hold once the records `done` are written. -/
structure Wrote (done : List Record) (c : CsvFiles) : Prop where
  clean : c.error = []
  file : ∀ k : Kind, c.files.lookup k.stem =
    if recordsOf k done = [] then none else some (fileOf floatText k (recordsOf k done))
  others : ∀ stem : Bytes, (∀ k : Kind, stem ≠ k.stem) → c.files.lookup stem = none ∧ c.rows.lookup stem = none
  counted : ∀ k : Kind, c.rows.lookup k.stem =
    if recordsOf k done = [] then none else some (UInt64.ofNat (recordsOf k done).length)

theorem wrote_nothing (outDir : Bytes) : Wrote floatText [] { outDir := outDir } where
  clean := rfl
  file _ := rfl
  others _ _ := ⟨rfl, rfl⟩
  counted _ := rfl

theorem recordsOf_snoc (k : Kind) (done : List Record) (r : Record) :
    recordsOf k (done ++ [r]) = recordsOf k done ++ if kindOf r = k then [r] else [] := by
  rw [recordsOf, List.filter_append, recordsOf]
  by_cases own : kindOf r = k
  · rw [if_pos own, List.filter_cons_of_pos (by simpa using own), List.filter_nil]
  · rw [if_neg own, List.filter_cons_of_neg (by simpa using own), List.filter_nil]

theorem fileOf_snoc (k : Kind) (rs : List Record) (r : Record) :
    fileOf floatText k (rs ++ [r]) = fileOf floatText k rs ++ rowOf floatText r ++ [newline] := by
  rw [fileOf, List.flatMap_append, List.flatMap_singleton, fileOf]
  simp only [List.append_assoc]

/-- Behind `opened` the file of the stem is there, and nothing else has changed. -/
theorem opened_record {done : List Record} {c : CsvFiles} (w : Wrote floatText done c) (k : Kind) :
    ∃ c', c.opened k.stem k.columns {} = .ok c' ∧ c'.error = [] ∧
      KeyMap.get [] c'.files k.stem = fileOf floatText k (recordsOf k done) ∧
      KeyMap.get 0 c'.rows k.stem = UInt64.ofNat (recordsOf k done).length ∧
      ∀ stem ≠ k.stem, c'.files.lookup stem = c.files.lookup stem ∧ c'.rows.lookup stem = c.rows.lookup stem := by
  have file := w.file k
  have counted := w.counted k
  by_cases fresh : recordsOf k done = []
  · rw [if_pos fresh] at file
    have opened : c.opened k.stem k.columns {} = .ok { c with
        files := c.files.insert k.stem (k.columns ++ [newline])
        rows := c.rows.insert k.stem 0 } := by
      rw [CsvFiles.opened, file]
    refine ⟨_, opened, w.clean, ?_, ?_, ?_⟩
    · rw [KeyMap.get, AList.lookup_insert, fresh]
      exact (List.append_nil _).symm
    · rw [KeyMap.get, AList.lookup_insert, fresh]
      rfl
    · intro stem other
      exact ⟨AList.lookup_insert_ne other, AList.lookup_insert_ne other⟩
  · rw [if_neg fresh] at file counted
    refine ⟨c, by rw [CsvFiles.opened, file], w.clean, ?_, ?_, fun _ _ => ⟨rfl, rfl⟩⟩
    · rw [KeyMap.get, file]
      rfl
    · rw [KeyMap.get, counted]
      rfl

/-- One record adds its row to the file of its kind. -/
theorem write_record {done : List Record} {c : CsvFiles} (w : Wrote floatText done c) (r : Record) :
    ∃ c', c.write (kindOf r).stem (kindOf r).columns (Row.of (headTexts r.hdr ++ payloadTexts floatText r.payload)) {} =
      (c', true) ∧ Wrote floatText (done ++ [r]) c' := by
  obtain ⟨c₁, opened, clean, file, rows, others⟩ := opened_record floatText w (kindOf r)
  have wrote : c.write (kindOf r).stem (kindOf r).columns (Row.of (headTexts r.hdr ++ payloadTexts floatText r.payload)) {} =
      ({ c₁ with
        files := KeyMap.update [] c₁.files (kindOf r).stem (· ++ rowOf floatText r ++ [newline])
        rows := KeyMap.update 0 c₁.rows (kindOf r).stem (· + 1) }, true) := by
    rw [CsvFiles.write, opened]
    rfl
  refine ⟨_, wrote, clean, ?_, ?_, ?_⟩
  · intro k
    rw [recordsOf_snoc]
    simp only [KeyMap.update, KeyMap.lookup_insert_eq, file]
    by_cases own : kindOf r = k
    · subst own
      rw [if_pos rfl, if_pos rfl, if_neg (List.append_ne_nil_of_right_ne_nil _ (List.cons_ne_nil _ _)), fileOf_snoc]
    · have other : k.stem ≠ (kindOf r).stem := fun same => own (Kind.stem_injective same).symm
      rw [if_neg other, if_neg own, List.append_nil, (others _ other).1, w.file]
  · intro stem foreign
    have other := foreign (kindOf r)
    simp only [KeyMap.update, KeyMap.lookup_insert_eq]
    rw [if_neg other, if_neg other, (others _ other).1, (others _ other).2]
    exact w.others stem foreign
  · intro k
    rw [recordsOf_snoc]
    simp only [KeyMap.update, KeyMap.lookup_insert_eq, rows]
    by_cases own : kindOf r = k
    · subst own
      rw [if_pos rfl, if_pos rfl, if_neg (List.append_ne_nil_of_right_ne_nil _ (List.cons_ne_nil _ _)),
        List.length_append, List.length_singleton, UInt64.ofNat_add]
      rfl
    · have other : k.stem ≠ (kindOf r).stem := fun same => own (Kind.stem_injective same).symm
      rw [if_neg other, if_neg own, List.append_nil, (others _ other).2, w.counted]

/-- The loop writes every record of the scan, whatever the file and the columns were. -/
theorem exportLoop_scans {p : Bytes} {rs : List Record} {e : Ending} (scan : Scans p rs e) :
    ∀ {reader : CaptureReader} {fuel n : Nat} {out : CsvFiles} {stem columns : Bytes} {done : List Record},
      reader.isOpen = true → reader.error = [] → reader.rest = p → p.length < fuel → Wrote floatText done out →
      ∃ reader' out', exportLoop floatText {} fuel n reader out stem columns = .ok (reader', out') ∧
        reader'.error = e.text ∧ Wrote floatText (done ++ rs) out' := by
  induction scan with
  | stop head =>
    rintro reader (_ | fuel) n out stem columns done isOpen good rfl enough w
    · omega
    · obtain ⟨reader', ran, error, -⟩ := CaptureReader.next_stop isOpen good head
      refine ⟨reader', out, ?_, error, by rwa [List.append_nil]⟩
      rw [exportLoop, ran]
      rfl
  | @record _ rest r rs e head _ ih =>
    rintro reader (_ | fuel) n out stem columns done isOpen good rfl enough w
    · omega
    · have shorter := headOf_shorter head
      obtain ⟨out', wrote, w'⟩ := write_record floatText w r
      obtain ⟨reader', out'', ran, error, all⟩ := @ih { reader with rest := rest } fuel (n + 1) out' (kindOf r).stem
        (kindOf r).columns (done ++ [r]) isOpen good rfl (by omega) w'
      refine ⟨reader', out'', ?_, error, by rwa [List.append_assoc] at all⟩
      rw [exportLoop, CaptureReader.next_record_of isOpen good head]
      simp only [Machine.ok_bind]
      have row : ({} : Row).fields [numText r.hdr.sourceId.toNat, numText r.hdr.sequence.toNat,
          numText r.hdr.timestampNs.toNat, numText r.hdr.flags.toNat] = Row.of (headTexts r.hdr) :=
        Row.of_fields [] (headTexts r.hdr)
      rw [row, decodeTestpub_eq]
      cases found : testpubOf r.payload with
      | none =>
        have kind : kindOf r = .unknown := by rw [kindOf, found]
        have texts : payloadTexts floatText r.payload = [numText r.payload.length, hex r.payload] := by
          rw [payloadTexts, found]
        rw [kind, texts] at wrote
        rw [kind] at ran
        have wrote' : out.write (str "unknown") (kRecordColumns ++ str ",payload_length,payload_hex")
            (Row.of (headTexts r.hdr ++ [numText r.payload.length, hex r.payload])) {} = (out', true) := wrote
        simp only [Machine.ok_bind, Bool.false_eq_true, reduceIte, Row.of_fields, wrote']
        exact ran
      | some testpub =>
        obtain ⟨h, d⟩ := testpub
        have kind : kindOf r = Kind.ofTelemetry d := by rw [kindOf, found]
        have texts : payloadTexts floatText r.payload =
            [numText h.publisherIndex.toNat, numText h.messageIndex.toNat] ++ telemetryTexts floatText d := by
          rw [payloadTexts, found]
        rw [kind, texts] at wrote
        rw [kind] at ran
        simp only [Machine.ok_bind, reduceIte, wrote]
        exact ran

end Write

section Export

variable (floatText : F32 → Bytes)

/-- The records of a file take up no more than its bytes. -/
theorem scans_length {p : Bytes} {rs : List Record} {e : Ending} (scan : Scans p rs e) :
    kRecordHeaderSize * rs.length ≤ p.length := by
  induction scan with
  | stop head => exact Nat.zero_le _
  | record head _ ih =>
    have behind := headOf_behind head
    rw [List.length_cons, Nat.mul_succ]
    omega

theorem rowOf_free {b : UInt8} (separator : plain b = false) (floats : ∀ v, b ∉ floatText v) (other : b ≠ comma)
    (r : Record) : b ∉ rowOf floatText r := by
  have free : ∀ t ∈ headTexts r.hdr ++ payloadTexts floatText r.payload, b ∉ t := by
    intro t mem
    rcases texts_plain floatText r t mem with safe | ⟨v, rfl⟩
    · exact safe.free separator
    · exact floats v
  unfold rowOf
  generalize headTexts r.hdr ++ payloadTexts floatText r.payload = texts at free
  induction texts with
  | nil => exact List.not_mem_nil
  | cons t texts ih =>
    have own := free t List.mem_cons_self
    have rest := ih fun s mem => free s (List.mem_cons_of_mem _ mem)
    cases texts with
    | nil => rwa [List.intercalate_singleton]
    | cons s texts =>
      rw [List.intercalate_cons_cons, List.mem_append, List.mem_append, List.mem_singleton]
      exact fun h => h.elim (fun h => h.elim own other) rest

/-- What was written is what an export owes. -/
theorem Wrote.exports {records : List Record} {out : CsvFiles} (w : Wrote floatText records out)
    (noComma : ∀ v, comma ∉ floatText v) (readError : Bytes) :
    Exports floatText records readError
      { rows := out.rows, error := if out.error ≠ [] then out.error else readError } out.files where
  file := w.file
  others := w.others
  counted := w.counted
  starts r _ := by
    rw [splitOn_rowOf floatText noComma]
    exact List.prefix_append _ _
  width r _ := by
    rw [splitOn_rowOf floatText noComma, length_splitOn, length_texts]
  line noNewline r _ := rowOf_free floatText rfl noNewline (by decide) r
  error := by
    rw [w.clean]
    exact Iff.rfl

/-- The counts are exact below `2 ^ 64`. -/
theorem Wrote.counted_exact {records : List Record} {out : CsvFiles} (w : Wrote floatText records out)
    (small : records.length < 2 ^ 64) {k : Kind} {n : UInt64} (counted : out.rows.lookup k.stem = some n) :
    n.toNat = (recordsOf k records).length := by
  have fewer : (recordsOf k records).length ≤ records.length := List.length_filter_le _ _
  rw [w.counted] at counted
  split at counted
  · cases counted
  · cases counted
    exact UInt64.toNat_ofNat_of_lt' (fewer.trans_lt small)

/-- With working output files every record that the reader returns has its row in one of the four files, and the
export reports an error just if the reader does; the counts of the rows are exact in a file of less than `2 ^ 64` bytes. -/
theorem export_every_record (noComma : ∀ v, comma ∉ floatText v) (path outDir : Bytes) (file : Except Bytes Bytes) :
    ∃ reader records result files, CaptureReader.readFile path file = .ok (reader, records) ∧
      exportCapture floatText path file outDir {} = .ok (result, files) ∧
      Exports floatText records reader.error result files ∧
      ∀ contents, file = .ok contents → contents.length < 2 ^ 64 →
        ∀ k n, result.rows.lookup (Kind.stem k) = some n → n.toNat = (recordsOf k records).length := by
  have nothing := wrote_nothing floatText outDir
  cases file with
  | error err =>
    refine ⟨_, _, _, _, rfl, rfl, ?_, fun _ eq => by cases eq⟩
    exact nothing.exports floatText noComma _
  | ok contents =>
    by_cases accepted : CaptureInspect.Accepted contents
    · have opened := CaptureInspect.openFile_accepted path accepted
      obtain ⟨rs, e, scan⟩ := scans_total (contents.drop (LittleEndian.field contents 6 2))
      obtain ⟨reader, read, error, -⟩ := @CaptureReader.readAll_scans _ _ _ scan
        { isOpen := true, rest := contents.drop (LittleEndian.field contents 6 2), fileHeader := fileHeaderOf contents }
        _ rfl rfl rfl (Nat.lt_succ_self _)
      obtain ⟨reader', out, ran, error', wrote⟩ := @exportLoop_scans floatText _ _ _ scan
        { isOpen := true, rest := contents.drop (LittleEndian.field contents 6 2), fileHeader := fileHeaderOf contents }
        _ 0 _ [] [] _ rfl rfl rfl (Nat.lt_succ_self _) nothing
      have same : reader'.error = reader.error := by rw [error, error']
      have closed : (out.close fun _ => true) = (out, true) := by
        have all : (out.files.keys.mergeSort fun s t => decide (s ≤ t)).find? (fun _ => ¬ true) = none :=
          List.find?_eq_none.2 fun _ _ => by decide
        rw [CsvFiles.close, all]
      refine ⟨reader, rs, { rows := out.rows, error := if out.error ≠ [] then out.error else reader.error }, out.files,
        ?_, ?_, wrote.exports floatText noComma _, ?_⟩
      · rw [CaptureReader.readFile, opened]
        exact read
      · rw [exportCapture, opened]
        simp only [Machine.ok_bind, not_true_eq_false, reduceIte]
        rw [ran]
        simp only [Machine.ok_bind, closed, same]
      · intro contents' eq small k n counted
        cases eq
        have length := scans_length scan
        rw [List.length_drop] at length
        have fewer : rs.length < 2 ^ 64 := by
          unfold kRecordHeaderSize at length
          omega
        exact Wrote.counted_exact floatText wrote fewer counted
    · obtain ⟨reader, opened, error⟩ := CaptureInspect.openFile_refused path accepted
      refine ⟨reader, [], { error := reader.error }, ∅, ?_, ?_, ?_, fun _ _ _ _ _ mem => by cases mem⟩
      · rw [CaptureReader.readFile, opened]
        rfl
      · rw [exportCapture, opened]
        rfl
      · exact nothing.exports floatText noComma _

/-- A file with a foreign payload and a board health message of zeros. -/
def labCapture : Bytes :=
  let health : Bytes := putU32le kTestMagic ++ putU32le 0 ++ putU64le 0 ++ putU32le 104 ++ putU16le kDataBoardHealth ++
    putU16le 80 ++ List.replicate 80 0
  encodeFileHeader { version := kFormatVersion, headerLength := 32, createdNs := 0, wireVersion := 1 } ++
    recordBytes { sourceId := 1, sequence := 0, timestampNs := 1000, payloadLength := 0, flags := 0 } [1, 2, 3] ++
    recordBytes { sourceId := 1, sequence := 1, timestampNs := 2000, payloadLength := 0, flags := 0 } health

theorem export_every_record_lab : ∃ reader records result files,
    CaptureReader.readFile (str "t.cap") (.ok labCapture) = .ok (reader, records) ∧
      exportCapture (fun _ => str "0") (str "t.cap") (.ok labCapture) (str "csv") {} = .ok (result, files) ∧
      Exports (fun _ => str "0") records reader.error result files ∧
      ∀ contents, Except.ok labCapture = (.ok contents : Except Bytes Bytes) → contents.length < 2 ^ 64 →
        ∀ k n, result.rows.lookup (Kind.stem k) = some n → n.toNat = (recordsOf k records).length :=
  export_every_record (fun _ => str "0") (fun _ => by decide +kernel) (str "t.cap") (str "csv") (.ok labCapture)

end Export

end IpcRelay.Csvexport
