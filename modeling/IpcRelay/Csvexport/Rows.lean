import IpcRelay.Common.JsonText
import IpcRelay.Lib.Occurrence
import IpcRelay.Receiver.CaptureReader
import IpcRelay.Testpub.Telemetry

/-!
# The rows of the CSV export (`tools/capture_to_csv/csv_export.cpp`)

A row is built field by field. `decode_testpub` finds test telemetry in a
payload, adds its fields and chooses the file; `testpubOf` is what it recognises,
and `decodeTestpub_eq` says that it leaves the row, the file and the columns
alone where it recognises nothing. The text of a float is a parameter.
-/

namespace IpcRelay.Csvexport

open Testpub Capture

section Names

def kRailNames : List Bytes := ["12v0_in", "5v0", "3v3", "1v8", "1v0_core", "1v2_ddr"].map str
def kTempNames : List Bytes := ["cpu", "fpga", "pmic", "board"].map str
def kModeNames : List Bytes := ["boot", "standby", "operational", "maintenance", "fault"].map str
def kStatusFlagNames : List Bytes :=
  ["power_good", "clock_locked", "link_up", "bit_passed", "fan_ok", "over_temp_warning"].map str
def kPortStateNames : List Bytes :=
  ["", "initializing", "faulty", "disabled", "listening", "pre_master", "master", "passive", "uncalibrated",
    "slave"].map str
def kServoStateNames : List Bytes := ["unlocked", "jump", "locked"].map str
def kPtpFlagNames : List Bytes := ["gm_present", "utc_offset_valid", "time_traceable", "freq_traceable"].map str

def kRecordColumns : Bytes := str "source_id,sequence,timestamp_ns,flags"

def boardHealthColumns : Bytes :=
  let c := str "sample_time_ns"
  let c := kRailNames.foldl (fun c r =>
    c ++ (str ",rail_" ++ r ++ str "_voltage_v,rail_" ++ r ++ str "_current_a")) c
  let c := kTempNames.foldl (fun c t => c ++ (str ",temp_" ++ t ++ str "_c")) c
  c ++ str ",alarm_flags,alarms,sample_count"

def kModeStatusColumns : Bytes :=
  str ("sample_time_ns,uptime_s,mode,previous_mode,mode_change_count,status_flags,status,fault_code," ++
    "time_in_mode_s,heartbeat")

def kPtpStatsColumns : Bytes :=
  str ("sample_time_ns,grandmaster_identity,offset_from_master_ns,mean_path_delay_ns,freq_adjustment_ppb," ++
    "steps_removed,current_utc_offset_s,port_state,servo_state,gm_clock_class,ptp_flags,ptp_flag_names," ++
    "sync_rx_count,announce_timeout_count")

def enumName (names : List Bytes) (value : UInt8) : Bytes :=
  let name := names.getD value.toNat []
  if value.toNat < names.length ∧ name ≠ [] then name else str "unknown_" ++ numText value.toNat

/-- `append_flag_names`, the loop from the bit `bit` on. -/
def appendFlagNames (out : Bytes) (names : List Bytes) (value bit : UInt32) (pre : Bytes) : Bytes :=
  match names with
  | [] => out
  | name :: names =>
    let out := if value &&& (1 <<< bit) ≠ 0 then (if out = [] then out else out ++ str "|") ++ pre ++ name else out
    appendFlagNames out names value (bit + 1) pre

def flagNames (names : List Bytes) (value : UInt32) : Bytes := appendFlagNames [] names value 0 []

def hexDigit (b : UInt8) : UInt8 := (str "0123456789abcdef").getD b.toNat 0

def hex (p : Bytes) : Bytes := p.flatMap fun (b : UInt8) => [hexDigit (b >>> 4), hexDigit (b &&& 0x0F)]

/-- `0x%04X`, into a buffer of 16 bytes. -/
def faultText (faultCode : UInt32) : Bytes :=
  let digits := (Nat.toDigits 16 faultCode.toNat).map Char.toUpper
  (str "0x" ++ (digits.leftpad 4 '0').map fun c => UInt8.ofNat c.toNat).take 15

end Names

section Row

def comma : UInt8 := 0x2C
def newline : UInt8 := 0x0A

/-- One CSV line. -/
structure Row where
  line : Bytes := []
  first : Bool := true
  deriving DecidableEq, Repr

def Row.field (row : Row) (s : Bytes) : Row :=
  { line := (if row.first then row.line else row.line ++ [comma]) ++ s, first := false }

/-- A chain of `<<`. -/
def Row.fields (row : Row) (texts : List Bytes) : Row := texts.foldl Row.field row

variable (floatText : F32 → Bytes)

/-- The `alarms` of `add_fields`. -/
def boardHealthAlarms (d : BoardHealth) : Bytes :=
  let alarms := appendFlagNames [] kRailNames d.alarmFlags kAlarmRailBase (str "rail_")
  appendFlagNames alarms kTempNames d.alarmFlags kAlarmTempBase (str "temp_")

/-- `add_fields`. -/
def addBoardHealth (row : Row) (d : BoardHealth) : Row :=
  let row := row.field (numText d.sampleTimeNs.toNat)
  let row := d.rails.toList.foldl (fun row r => row.fields [floatText r.voltageV, floatText r.currentA]) row
  let row := d.temperatureC.toList.foldl (fun row c => row.field (floatText c)) row
  row.fields [numText d.alarmFlags.toNat, boardHealthAlarms d, numText d.sampleCount.toNat]

def modeStatusTexts (d : ModeStatus) : List Bytes :=
  [numText d.sampleTimeNs.toNat, numText d.uptimeS.toNat, enumName kModeNames d.mode, enumName kModeNames d.previousMode,
    numText d.modeChangeCount.toNat, numText d.statusFlags.toNat, flagNames kStatusFlagNames d.statusFlags,
    faultText d.faultCode, numText d.timeInModeS.toNat, numText d.heartbeat.toNat]

def addModeStatus (row : Row) (d : ModeStatus) : Row := row.fields (modeStatusTexts d)

/-- The `clockIdentity` style. -/
def gmId (gm : Bytes) : Bytes :=
  hex (gm.take 3) ++ str "." ++ hex ((gm.drop 3).take 2) ++ str "." ++ hex ((gm.drop 5).take 3)

def ptpStatsTexts (d : PtpStats) : List Bytes :=
  [numText d.sampleTimeNs.toNat, gmId d.grandmasterIdentity.toList, numText d.offsetFromMasterNs.toInt,
    numText d.meanPathDelayNs.toInt, numText d.freqAdjustmentPpb.toInt, numText d.stepsRemoved.toNat,
    numText d.currentUtcOffsetS.toInt, enumName kPortStateNames d.portState, enumName kServoStateNames d.servoState,
    numText d.gmClockClass.toNat, numText d.flags.toNat, flagNames kPtpFlagNames d.flags.toUInt32,
    numText d.syncRxCount.toNat, numText d.announceTimeoutCount.toNat]

def addPtpStats (row : Row) (d : PtpStats) : Row := row.fields (ptpStatsTexts d)

/-- `decode_testpub`: the row, the stem and the columns as it leaves them, and what it returns. -/
def decodeTestpub (payload : Bytes) (row : Row) (stem columns : Bytes) : Exec (Row × Bytes × Bytes × Bool) :=
  match Occurrence.firstAt [0x54, 0x45, 0x53, 0x54] payload with
  | none => .ok (row, stem, columns, false)
  | some idx =>
    if payload.length < idx + kTestHeaderSize then .ok (row, stem, columns, false)
    else do
      let h ← TestHeader.decode payload idx
      let len := dataSize h.dataType
      let start := idx + kTestHeaderSize
      if len = 0 ∨ h.payloadLength.toNat ≠ payload.length ∨ h.dataLength.toNat ≠ len ∨ payload.length < start + len then
        .ok (row, stem, columns, false)
      else
        let row := row.fields [numText h.publisherIndex.toNat, numText h.messageIndex.toNat]
        let columns := kRecordColumns ++ str ",publisher_index,message_index,"
        if h.dataType = kDataBoardHealth then do
          let d ← BoardHealth.decode payload start
          .ok (addBoardHealth floatText row d, str "board_health", columns ++ boardHealthColumns, true)
        else if h.dataType = kDataModeStatus then do
          let d ← ModeStatus.decode payload start
          .ok (addModeStatus row d, str "mode_status", columns ++ kModeStatusColumns, true)
        else if h.dataType = kDataPtpStats then do
          let d ← PtpStats.decode payload start
          .ok (addPtpStats row d, str "ptp_stats", columns ++ kPtpStatsColumns, true)
        else .ok (row, stem, columns, true)

end Row

section Texts

/-- A row of the given fields. -/
def Row.of (texts : List Bytes) : Row := { line := [comma].intercalate texts, first := texts.isEmpty }

theorem Row.of_field (texts : List Bytes) (t : Bytes) : (Row.of texts).field t = Row.of (texts ++ [t]) := by
  have line : (if texts.isEmpty then [comma].intercalate texts else [comma].intercalate texts ++ [comma]) ++ t =
      [comma].intercalate (texts ++ [t]) := by
    induction texts with
    | nil => simp
    | cons a texts ih =>
      cases texts with
      | nil => simp
      | cons b texts =>
        rw [List.isEmpty_cons, if_neg Bool.false_ne_true] at ih ⊢
        rw [List.cons_append, List.cons_append, List.intercalate_cons_cons, List.intercalate_cons_cons, ← List.cons_append, ← ih]
        simp only [List.append_assoc]
  have filled : (texts ++ [t]).isEmpty = false := by cases texts <;> rfl
  rw [Row.of, Row.of, filled]
  exact congrArg (Row.mk · false) line

theorem Row.of_fields (texts more : List Bytes) : (Row.of texts).fields more = Row.of (texts ++ more) := by
  induction more generalizing texts with
  | nil => rw [List.append_nil]; rfl
  | cons t more ih =>
    change ((Row.of texts).field t).fields more = _
    rw [Row.of_field, ih, List.append_assoc, List.singleton_append]

/-- A loop that adds fields for each element. -/
theorem Row.of_foldl {α : Type} (texts : List Bytes) (add : α → List Bytes) (l : List α) :
    l.foldl (fun row a => row.fields (add a)) (Row.of texts) = Row.of (texts ++ l.flatMap add) := by
  induction l generalizing texts with
  | nil => rw [List.flatMap_nil, List.append_nil]; rfl
  | cons a l ih => rw [List.foldl_cons, Row.of_fields, ih, List.flatMap_cons, List.append_assoc]

variable (floatText : F32 → Bytes)

def boardHealthTexts (d : BoardHealth) : List Bytes :=
  [numText d.sampleTimeNs.toNat] ++ d.rails.toList.flatMap (fun r => [floatText r.voltageV, floatText r.currentA]) ++
    d.temperatureC.toList.flatMap (fun c => [floatText c]) ++
    [numText d.alarmFlags.toNat, boardHealthAlarms d, numText d.sampleCount.toNat]

theorem addBoardHealth_of (texts : List Bytes) (d : BoardHealth) :
    addBoardHealth floatText (Row.of texts) d = Row.of (texts ++ boardHealthTexts floatText d) := by
  have temperatures (row : Row) : d.temperatureC.toList.foldl (fun row c => row.field (floatText c)) row =
      d.temperatureC.toList.foldl (fun row c => row.fields [floatText c]) row := rfl
  rw [addBoardHealth, Row.of_field, Row.of_foldl, temperatures, Row.of_foldl, Row.of_fields, boardHealthTexts]
  simp only [List.append_assoc]

/-- The fields of a record. -/
def telemetryTexts : Telemetry → List Bytes
  | .boardHealth d => boardHealthTexts floatText d
  | .modeStatus d => modeStatusTexts d
  | .ptpStats d => ptpStatsTexts d

/-- The four files. -/
inductive Kind where
  | boardHealth
  | modeStatus
  | ptpStats
  | unknown
  deriving DecidableEq, Repr

namespace Kind

def stem : Kind → Bytes
  | .boardHealth => str "board_health"
  | .modeStatus => str "mode_status"
  | .ptpStats => str "ptp_stats"
  | .unknown => str "unknown"

def columns : Kind → Bytes
  | .boardHealth => kRecordColumns ++ str ",publisher_index,message_index," ++ boardHealthColumns
  | .modeStatus => kRecordColumns ++ str ",publisher_index,message_index," ++ kModeStatusColumns
  | .ptpStats => kRecordColumns ++ str ",publisher_index,message_index," ++ kPtpStatsColumns
  | .unknown => kRecordColumns ++ str ",payload_length,payload_hex"

def ofTelemetry : Telemetry → Kind
  | .boardHealth _ => .boardHealth
  | .modeStatus _ => .modeStatus
  | .ptpStats _ => .ptpStats

end Kind

/-- The test telemetry in a payload, if there is any. -/
def testpubOf (payload : Bytes) : Option (TestHeader × Telemetry) :=
  match Occurrence.firstAt [0x54, 0x45, 0x53, 0x54] payload with
  | none => none
  | some idx =>
    let h := TestHeader.codec.readAt payload idx
    let start := idx + kTestHeaderSize
    if payload.length < start + dataSize h.dataType ∨ h.payloadLength.toNat ≠ payload.length ∨
        h.dataLength.toNat ≠ dataSize h.dataType then none
    else (Telemetry.readAt h.dataType payload start).map (h, ·)

/-- `decode_testpub` adds the fields of the telemetry that it recognises and sets the file, or leaves all as it was. -/
theorem decodeTestpub_eq (payload : Bytes) (texts : List Bytes) (stem columns : Bytes) :
    decodeTestpub floatText payload (Row.of texts) stem columns = .ok (match testpubOf payload with
      | none => (Row.of texts, stem, columns, false)
      | some (h, d) =>
        (Row.of (texts ++ ([numText h.publisherIndex.toNat, numText h.messageIndex.toNat] ++ telemetryTexts floatText d)),
          (Kind.ofTelemetry d).stem, (Kind.ofTelemetry d).columns, true)) := by
  unfold decodeTestpub testpubOf
  cases found : Occurrence.firstAt [0x54, 0x45, 0x53, 0x54] payload with
  | none => rfl
  | some idx =>
    by_cases short : payload.length < idx + kTestHeaderSize
    · have refused : payload.length < idx + kTestHeaderSize + dataSize (TestHeader.codec.readAt payload idx).dataType := by
        omega
      simp only [short, refused, true_or, reduceIte]
    · have within : idx + TestHeader.codec.width ≤ payload.length := Nat.le_of_not_lt short
      simp only [short, reduceIte]
      rw [(reads_testHeader payload).bind within]
      generalize TestHeader.codec.readAt payload idx = h
      by_cases other : dataSize h.dataType = 0
      · have unread := (@Telemetry.readAt_eq_none h.dataType payload (idx + kTestHeaderSize)).2 other
        simp only [other, unread, true_or, reduceIte, Option.map_none, ite_self]
      · by_cases bad : payload.length < idx + kTestHeaderSize + dataSize h.dataType ∨
            h.payloadLength.toNat ≠ payload.length ∨ h.dataLength.toNat ≠ dataSize h.dataType
        · have bad' : dataSize h.dataType = 0 ∨ h.payloadLength.toNat ≠ payload.length ∨
              h.dataLength.toNat ≠ dataSize h.dataType ∨ payload.length < idx + kTestHeaderSize + dataSize h.dataType := by
            tauto
          rw [if_pos bad, if_pos bad']
        · have good : ¬ (dataSize h.dataType = 0 ∨ h.payloadLength.toNat ≠ payload.length ∨
              h.dataLength.toNat ≠ dataSize h.dataType ∨ payload.length < idx + kTestHeaderSize + dataSize h.dataType) := by
            tauto
          have room : idx + kTestHeaderSize + dataSize h.dataType ≤ payload.length := by omega
          rw [if_neg bad, if_neg good, Row.of_fields]
          rcases Telemetry.type_cases other with eq | eq | eq <;> rw [eq] at room
          · have read : Telemetry.readAt h.dataType payload (idx + kTestHeaderSize) =
                some (.boardHealth (BoardHealth.codec.readAt payload (idx + kTestHeaderSize))) := by rw [eq]; rfl
            rw [if_pos eq, (reads_boardHealth payload).bind room, addBoardHealth_of, List.append_assoc, read]
            rfl
          · have read : Telemetry.readAt h.dataType payload (idx + kTestHeaderSize) =
                some (.modeStatus (ModeStatus.codec.readAt payload (idx + kTestHeaderSize))) := by rw [eq]; rfl
            rw [if_neg (by rw [eq]; decide), if_pos eq, (reads_modeStatus payload).bind room, addModeStatus,
              Row.of_fields, List.append_assoc, read]
            rfl
          · have read : Telemetry.readAt h.dataType payload (idx + kTestHeaderSize) =
                some (.ptpStats (PtpStats.codec.readAt payload (idx + kTestHeaderSize))) := by rw [eq]; rfl
            rw [if_neg (by rw [eq]; decide), if_neg (by rw [eq]; decide), if_pos eq,
              (reads_ptpStats payload).bind room, addPtpStats, Row.of_fields, List.append_assoc, read]
            rfl

end Texts

section Plain

/-- "Fields never contain commas, quotes or newlines." -/
def plain (b : UInt8) : Bool := b ≠ comma && b ≠ 0x22 && b ≠ newline

def Plain (t : Bytes) : Prop := ∀ b ∈ t, plain b = true

theorem plain_str {s : String} (all : (str s).all plain = true := by decide +kernel) : Plain (str s) :=
  List.all_eq_true.1 all

theorem plain_names {names : List Bytes} (all : names.flatten.all plain = true := by decide +kernel) :
    ∀ n ∈ names, Plain n :=
  fun _ mem b there => List.all_eq_true.1 all b (List.mem_flatten_of_mem mem there)

theorem Plain.nil : Plain [] := fun _ mem => by cases mem

theorem Plain.append {s t : Bytes} (hs : Plain s) (ht : Plain t) : Plain (s ++ t) := by
  intro b mem
  rcases List.mem_append.1 mem with h | h
  · exact hs b h
  · exact ht b h

theorem Plain.free {t : Bytes} (h : Plain t) {b : UInt8} (separator : plain b = false) : b ∉ t := by
  intro mem
  rw [h b mem] at separator
  cases separator

theorem plain_numText (i : Int) : Plain (numText i) := by
  have digits : ∀ c : Fin 256, JsonGrammar.isDigit (UInt8.ofNat c) = true → plain (UInt8.ofNat c) = true := by
    decide +kernel
  have natural (n : Nat) : Plain (numText n) := by
    intro b mem
    have every := digits ⟨b.toNat, b.toNat_lt⟩
    rw [UInt8.ofNat_toNat] at every
    exact every (numText_digit b mem)
  cases i with
  | ofNat n => exact natural n
  | negSucc n =>
    rw [numText_negSucc]
    exact .append plain_str (natural _)

theorem plain_enumName {names : List Bytes} (all : ∀ n ∈ names, Plain n) (value : UInt8) : Plain (enumName names value) := by
  change Plain (if value.toNat < names.length ∧ names.getD value.toNat [] ≠ [] then names.getD value.toNat [] else _)
  split
  next known =>
    rw [List.getD_eq_getElem _ _ known.1]
    exact all _ (List.getElem_mem known.1)
  next => exact .append plain_str (plain_numText _)

theorem plain_appendFlagNames {out pre : Bytes} {names : List Bytes} (ho : Plain out) (hp : Plain pre)
    (all : ∀ n ∈ names, Plain n) (value bit : UInt32) : Plain (appendFlagNames out names value bit pre) := by
  induction names generalizing out bit with
  | nil => exact ho
  | cons name names ih =>
    have rest : ∀ n ∈ names, Plain n := fun n mem => all n (List.mem_cons_of_mem _ mem)
    refine ih ?_ rest (bit + 1)
    split
    next =>
      refine .append (.append ?_ hp) (all name List.mem_cons_self)
      split
      · exact ho
      · exact ho.append plain_str
    next => exact ho

theorem plain_hex (p : Bytes) : Plain (hex p) := by
  have every : ∀ c : Fin 256, plain (hexDigit (UInt8.ofNat c)) = true := by decide +kernel
  have digit (b : UInt8) : plain (hexDigit b) = true := by
    have eq := every ⟨b.toNat, b.toNat_lt⟩
    rwa [UInt8.ofNat_toNat] at eq
  intro c mem
  obtain ⟨b, -, mem⟩ := List.mem_flatMap.1 mem
  rcases List.mem_cons.1 mem with rfl | mem
  · exact digit _
  · rw [List.mem_singleton.1 mem]
    exact digit _

theorem plain_hexDigits (n : Nat) : ∀ c ∈ Nat.toDigits 16 n, plain (UInt8.ofNat c.toUpper.toNat) = true := by
  have digit : ∀ d : Fin 16, plain (UInt8.ofNat (Nat.digitChar d).toUpper.toNat) = true := by decide +kernel
  induction n using Nat.strong_induction_on with
  | _ n ih =>
    intro c mem
    by_cases small : n < 16
    · rw [Nat.toDigits_of_lt_base small, List.mem_singleton] at mem
      rw [mem]
      exact digit ⟨n, small⟩
    · rw [Nat.toDigits_of_base_le (by decide) (Nat.le_of_not_lt small)] at mem
      rcases List.mem_append.1 mem with mem | mem
      · exact ih (n / 16) (by omega) c mem
      · rw [List.mem_singleton.1 mem]
        exact digit ⟨n % 16, Nat.mod_lt _ (by decide)⟩

theorem plain_faultText (faultCode : UInt32) : Plain (faultText faultCode) := by
  intro b mem
  rcases List.mem_append.1 (List.mem_of_mem_take mem) with mem | mem
  · have start : Plain (str "0x") := plain_str
    exact start b mem
  · obtain ⟨c, padded, rfl⟩ := List.mem_map.1 mem
    rcases List.mem_append.1 padded with pad | digit
    · rw [List.eq_of_mem_replicate pad]
      decide +kernel
    · obtain ⟨d, there, rfl⟩ := List.mem_map.1 digit
      exact plain_hexDigits _ d there

example : faultText 0x2A = str "0x002A" := by decide +kernel

variable (floatText : F32 → Bytes)

theorem plain_modeStatusTexts (d : ModeStatus) : ∀ t ∈ modeStatusTexts d, Plain t := by
  have modes : ∀ n ∈ kModeNames, Plain n := plain_names
  have flags : ∀ n ∈ kStatusFlagNames, Plain n := plain_names
  simp only [modeStatusTexts, List.forall_mem_cons]
  exact ⟨plain_numText _, plain_numText _, plain_enumName modes _, plain_enumName modes _, plain_numText _, plain_numText _,
    plain_appendFlagNames .nil .nil flags _ _, plain_faultText _, plain_numText _, plain_numText _, List.forall_mem_nil _⟩

theorem plain_ptpStatsTexts (d : PtpStats) : ∀ t ∈ ptpStatsTexts d, Plain t := by
  have ports : ∀ n ∈ kPortStateNames, Plain n := plain_names
  have servos : ∀ n ∈ kServoStateNames, Plain n := plain_names
  have flags : ∀ n ∈ kPtpFlagNames, Plain n := plain_names
  have dot : Plain (str ".") := plain_str
  have gm (l : Bytes) : Plain (gmId l) :=
    ((((plain_hex _).append dot).append (plain_hex _)).append dot).append (plain_hex _)
  simp only [ptpStatsTexts, List.forall_mem_cons]
  exact ⟨plain_numText _, gm _, plain_numText _, plain_numText _, plain_numText _, plain_numText _, plain_numText _,
    plain_enumName ports _, plain_enumName servos _, plain_numText _, plain_numText _,
    plain_appendFlagNames .nil .nil flags _ _, plain_numText _, plain_numText _, List.forall_mem_nil _⟩

theorem plain_boardHealthAlarms (d : BoardHealth) : Plain (boardHealthAlarms d) := by
  have rails : ∀ n ∈ kRailNames, Plain n := plain_names
  have temps : ∀ n ∈ kTempNames, Plain n := plain_names
  rw [boardHealthAlarms]
  refine plain_appendFlagNames ?_ plain_str temps _ _
  exact plain_appendFlagNames .nil plain_str rails _ _

variable (floatText : F32 → Bytes)

/-- A field is plain, or the text of a float. -/
theorem telemetryTexts_plain (d : Telemetry) : ∀ t ∈ telemetryTexts floatText d, Plain t ∨ ∃ v, t = floatText v := by
  intro t mem
  cases d with
  | boardHealth d =>
    rcases List.mem_append.1 mem with mem | mem
    · rcases List.mem_append.1 mem with mem | mem
      · rcases List.mem_append.1 mem with mem | mem
        · rw [List.mem_singleton.1 mem]
          exact .inl (plain_numText _)
        · obtain ⟨r, -, mem⟩ := List.mem_flatMap.1 mem
          rcases List.mem_cons.1 mem with eq | mem
          · exact .inr ⟨_, eq⟩
          · exact .inr ⟨_, List.mem_singleton.1 mem⟩
      · obtain ⟨c, -, mem⟩ := List.mem_flatMap.1 mem
        exact .inr ⟨_, List.mem_singleton.1 mem⟩
    · left
      rcases List.mem_cons.1 mem with rfl | mem
      · exact plain_numText _
      rcases List.mem_cons.1 mem with rfl | mem
      · exact plain_boardHealthAlarms d
      · rw [List.mem_singleton.1 mem]
        exact plain_numText _
  | modeStatus d => exact .inl (plain_modeStatusTexts d t mem)
  | ptpStats d => exact .inl (plain_ptpStatsTexts d t mem)

end Plain

end IpcRelay.Csvexport
