import IpcRelay.Common.ByteOrder
import IpcRelay.Lib.Codec

/-!
# The telemetry of the test publisher (`tools/testpub/telemetry.hpp`, `telemetry.cpp`)

Three records with their encoders and decoders. An encoder is the list of its
stores into the output buffer, in order, a decoder reads at the offsets of the
source. Each pair follows one codec (`telemetry_round_trip`): the stores fill
the encoded size without a gap, and what was stored is read back.
-/

namespace IpcRelay.Testpub

open LittleEndian Overlay

section Records

/-- A `float` by its bits. -/
structure F32 where
  bits : UInt32
  deriving DecidableEq, Repr

def kTestMagic : UInt32 := 0x54534554
def kTestHeaderSize : Nat := 24

structure TestHeader where
  magic : UInt32 := 0
  publisherIndex : UInt32 := 0
  messageIndex : UInt64 := 0
  /-- Including the topic prefix. -/
  payloadLength : UInt32 := 0
  /-- A `DataType`. -/
  dataType : UInt16 := 0
  dataLength : UInt16 := 0
  deriving DecidableEq, Repr

def kDataBoardHealth : UInt16 := 1
def kDataModeStatus : UInt16 := 2
def kDataPtpStats : UInt16 := 3
def kNumDataTypes : Nat := 3

def kNumPowerRails : Nat := 6
def kNumTempSensors : Nat := 4

/-- Alarm flags: bit `kAlarmRailBase + r` is rail `r` out of its range, bit `kAlarmTempBase + t` sensor `t` above its limit. -/
def kAlarmRailBase : UInt32 := 0
def kAlarmTempBase : UInt32 := 16

structure PowerRailReading where
  voltageV : F32
  currentA : F32
  deriving DecidableEq, Repr

structure BoardHealth where
  sampleTimeNs : UInt64
  rails : List.Vector PowerRailReading kNumPowerRails
  temperatureC : List.Vector F32 kNumTempSensors
  alarmFlags : UInt32
  sampleCount : UInt32
  deriving DecidableEq

structure ModeStatus where
  sampleTimeNs : UInt64
  uptimeS : UInt32
  mode : UInt8
  previousMode : UInt8
  modeChangeCount : UInt16
  statusFlags : UInt32
  faultCode : UInt32
  timeInModeS : UInt32
  heartbeat : UInt32
  deriving DecidableEq, Repr

structure PtpStats where
  sampleTimeNs : UInt64
  grandmasterIdentity : List.Vector UInt8 8
  offsetFromMasterNs : Int64
  meanPathDelayNs : Int64
  freqAdjustmentPpb : Int32
  stepsRemoved : UInt16
  currentUtcOffsetS : Int16
  portState : UInt8
  servoState : UInt8
  gmClockClass : UInt8
  flags : UInt8
  syncRxCount : UInt32
  announceTimeoutCount : UInt32
  reserved : UInt32
  deriving DecidableEq

def kBoardHealthSize : Nat := 80
def kModeStatusSize : Nat := 32
def kPtpStatsSize : Nat := 56

/-- `data_type_for_endpoint`. -/
def dataTypeForEndpoint (endpointIndex : Nat) : UInt16 := UInt16.ofNat (1 + endpointIndex % kNumDataTypes)

/-- `data_size`; 0 for a number that is no data type. -/
def dataSize (type : UInt16) : Nat :=
  if type = kDataBoardHealth then kBoardHealthSize
  else if type = kDataModeStatus then kModeStatusSize
  else if type = kDataPtpStats then kPtpStatsSize
  else 0

end Records

section Encode

def putU8 (v : UInt8) : Bytes := [v]

def putF32le (v : F32) : Bytes := putU32le v.bits

def putI64le (v : Int64) : Bytes := putU64le v.toUInt64

/-- The stores of `put_*` calls through `out`. -/
def store (out : Bytes) (base : Nat) : List (Patch UInt8) → Exec Bytes
  | [] => .ok out
  | p :: ps => do
    let out ← memcpy out (base + p.off) p.data p.data.length
    store out base ps

/-- The loop over the rails, with the pointer `p`. -/
def railStores (p : Nat) : List PowerRailReading → List (Patch UInt8)
  | [] => []
  | r :: rs => ⟨p, putF32le r.voltageV⟩ :: ⟨p + 4, putF32le r.currentA⟩ :: railStores (p + 8) rs

/-- The loop over the temperatures. -/
def temperatureStores (p : Nat) : List F32 → List (Patch UInt8)
  | [] => []
  | c :: cs => ⟨p, putF32le c⟩ :: temperatureStores (p + 4) cs

def BoardHealth.stores (d : BoardHealth) : List (Patch UInt8) :=
  let p := 8 + 8 * kNumPowerRails
  let q := p + 4 * kNumTempSensors
  [⟨0, putU64le d.sampleTimeNs⟩] ++ railStores 8 d.rails.toList ++ temperatureStores p d.temperatureC.toList ++
    [⟨q, putU32le d.alarmFlags⟩, ⟨q + 4, putU32le d.sampleCount⟩]

def ModeStatus.stores (d : ModeStatus) : List (Patch UInt8) := [
  ⟨0, putU64le d.sampleTimeNs⟩,
  ⟨8, putU32le d.uptimeS⟩,
  ⟨12, putU8 d.mode⟩,
  ⟨13, putU8 d.previousMode⟩,
  ⟨14, putU16le d.modeChangeCount⟩,
  ⟨16, putU32le d.statusFlags⟩,
  ⟨20, putU32le d.faultCode⟩,
  ⟨24, putU32le d.timeInModeS⟩,
  ⟨28, putU32le d.heartbeat⟩]

def PtpStats.stores (d : PtpStats) : List (Patch UInt8) := [
  ⟨0, putU64le d.sampleTimeNs⟩,
  ⟨8, d.grandmasterIdentity.toList⟩,
  ⟨16, putI64le d.offsetFromMasterNs⟩,
  ⟨24, putI64le d.meanPathDelayNs⟩,
  ⟨32, putU32le d.freqAdjustmentPpb.toUInt32⟩,
  ⟨36, putU16le d.stepsRemoved⟩,
  ⟨38, putU16le d.currentUtcOffsetS.toUInt16⟩,
  ⟨40, putU8 d.portState⟩,
  ⟨41, putU8 d.servoState⟩,
  ⟨42, putU8 d.gmClockClass⟩,
  ⟨43, putU8 d.flags⟩,
  ⟨44, putU32le d.syncRxCount⟩,
  ⟨48, putU32le d.announceTimeoutCount⟩,
  ⟨52, putU32le d.reserved⟩]

/-- `encode`, into the buffer `out` from `base` on. -/
def BoardHealth.encode (d : BoardHealth) (out : Bytes) (base : Nat) : Exec Bytes := store out base d.stores

def ModeStatus.encode (d : ModeStatus) (out : Bytes) (base : Nat) : Exec Bytes := store out base d.stores

def PtpStats.encode (d : PtpStats) (out : Bytes) (base : Nat) : Exec Bytes := store out base d.stores

end Encode

section Decode

def getU8 (p : Bytes) (off : Nat) : Exec UInt8 := byteAt p off

def getF32le (p : Bytes) (off : Nat) : Exec F32 := do
  let u ← getU32le p off
  .ok ⟨u⟩

/-- A loop that reads `n` elements, with a pointer that goes on by `step`. -/
def readArray {α : Type} (read : Nat → Exec α) (step : Nat) : (n : Nat) → Nat → Exec (List.Vector α n)
  | 0, _ => .ok List.Vector.nil
  | n + 1, p => do
    let a ← read p
    let as ← readArray read step n (p + step)
    .ok (a ::ᵥ as)

def readRail (b : Bytes) (p : Nat) : Exec PowerRailReading := do
  let voltageV ← getF32le b p
  let currentA ← getF32le b (p + 4)
  .ok { voltageV := voltageV, currentA := currentA }

/-- `decode`, from `base` on. -/
def TestHeader.decode (b : Bytes) (base : Nat) : Exec TestHeader := do
  let magic ← getU32le b (base + 0)
  let publisherIndex ← getU32le b (base + 4)
  let messageIndex ← getU64le b (base + 8)
  let payloadLength ← getU32le b (base + 16)
  let dataType ← getU16le b (base + 20)
  let dataLength ← getU16le b (base + 22)
  .ok { magic := magic, publisherIndex := publisherIndex, messageIndex := messageIndex, payloadLength := payloadLength,
        dataType := dataType, dataLength := dataLength }

def BoardHealth.decode (b : Bytes) (base : Nat) : Exec BoardHealth := do
  let sampleTimeNs ← getU64le b (base + 0)
  let p := base + 8
  let rails ← readArray (readRail b) 8 kNumPowerRails p
  let p := p + 8 * kNumPowerRails
  let temperatureC ← readArray (getF32le b) 4 kNumTempSensors p
  let p := p + 4 * kNumTempSensors
  let alarmFlags ← getU32le b p
  let sampleCount ← getU32le b (p + 4)
  .ok { sampleTimeNs := sampleTimeNs, rails := rails, temperatureC := temperatureC, alarmFlags := alarmFlags,
        sampleCount := sampleCount }

def ModeStatus.decode (b : Bytes) (base : Nat) : Exec ModeStatus := do
  let sampleTimeNs ← getU64le b (base + 0)
  let uptimeS ← getU32le b (base + 8)
  let mode ← getU8 b (base + 12)
  let previousMode ← getU8 b (base + 13)
  let modeChangeCount ← getU16le b (base + 14)
  let statusFlags ← getU32le b (base + 16)
  let faultCode ← getU32le b (base + 20)
  let timeInModeS ← getU32le b (base + 24)
  let heartbeat ← getU32le b (base + 28)
  .ok { sampleTimeNs := sampleTimeNs, uptimeS := uptimeS, mode := mode, previousMode := previousMode,
        modeChangeCount := modeChangeCount, statusFlags := statusFlags, faultCode := faultCode,
        timeInModeS := timeInModeS, heartbeat := heartbeat }

def PtpStats.decode (b : Bytes) (base : Nat) : Exec PtpStats := do
  let sampleTimeNs ← getU64le b (base + 0)
  let grandmasterIdentity ← readArray (getU8 b) 1 8 (base + 8)
  let offsetFromMasterNs ← getU64le b (base + 16)
  let meanPathDelayNs ← getU64le b (base + 24)
  let freqAdjustmentPpb ← getU32le b (base + 32)
  let stepsRemoved ← getU16le b (base + 36)
  let currentUtcOffsetS ← getU16le b (base + 38)
  let portState ← getU8 b (base + 40)
  let servoState ← getU8 b (base + 41)
  let gmClockClass ← getU8 b (base + 42)
  let flags ← getU8 b (base + 43)
  let syncRxCount ← getU32le b (base + 44)
  let announceTimeoutCount ← getU32le b (base + 48)
  let reserved ← getU32le b (base + 52)
  .ok { sampleTimeNs := sampleTimeNs, grandmasterIdentity := grandmasterIdentity,
        offsetFromMasterNs := offsetFromMasterNs.toInt64, meanPathDelayNs := meanPathDelayNs.toInt64,
        freqAdjustmentPpb := freqAdjustmentPpb.toInt32, stepsRemoved := stepsRemoved,
        currentUtcOffsetS := currentUtcOffsetS.toInt16, portState := portState, servoState := servoState,
        gmClockClass := gmClockClass, flags := flags, syncRxCount := syncRxCount,
        announceTimeoutCount := announceTimeoutCount, reserved := reserved }

end Decode

section Codecs

def u8 : Codec UInt8 :=
  .number 1 UInt8.ofNat UInt8.toNat UInt8.toNat_lt (fun _ => UInt8.ofNat_toNat) fun _ lt => UInt8.toNat_ofNat_of_lt' lt

def u16 : Codec UInt16 :=
  .number 2 UInt16.ofNat UInt16.toNat UInt16.toNat_lt (fun _ => UInt16.ofNat_toNat) fun _ lt => UInt16.toNat_ofNat_of_lt' lt

def u32 : Codec UInt32 :=
  .number 4 UInt32.ofNat UInt32.toNat UInt32.toNat_lt (fun _ => UInt32.ofNat_toNat) fun _ lt => UInt32.toNat_ofNat_of_lt' lt

def u64 : Codec UInt64 :=
  .number 8 UInt64.ofNat UInt64.toNat UInt64.toNat_lt (fun _ => UInt64.ofNat_toNat) fun _ lt => UInt64.toNat_ofNat_of_lt' lt

def f32 : Codec F32 := u32.iso ⟨F32.mk, F32.bits, fun _ => rfl, fun _ => rfl⟩

def i16 : Codec Int16 := u16.iso ⟨UInt16.toInt16, Int16.toUInt16, fun _ => rfl, fun _ => rfl⟩

def i32 : Codec Int32 := u32.iso ⟨UInt32.toInt32, Int32.toUInt32, fun _ => rfl, fun _ => rfl⟩

def i64 : Codec Int64 := u64.iso ⟨UInt64.toInt64, Int64.toUInt64, fun _ => rfl, fun _ => rfl⟩

def PowerRailReading.codec : Codec PowerRailReading :=
  (f32.pair f32).iso ⟨fun t => ⟨t.1, t.2⟩, fun r => (r.voltageV, r.currentA), fun _ => rfl, fun _ => rfl⟩

def TestHeader.codec : Codec TestHeader :=
  (u32.pair (u32.pair (u64.pair (u32.pair (u16.pair u16))))).iso {
    toFun := fun (a, b, c, d, e, f) => ⟨a, b, c, d, e, f⟩
    invFun := fun h => (h.magic, h.publisherIndex, h.messageIndex, h.payloadLength, h.dataType, h.dataLength)
    left_inv := fun _ => rfl
    right_inv := fun _ => rfl }

def BoardHealth.codec : Codec BoardHealth :=
  (u64.pair ((PowerRailReading.codec.vec kNumPowerRails).pair ((f32.vec kNumTempSensors).pair (u32.pair u32)))).iso {
    toFun := fun (a, b, c, d, e) => ⟨a, b, c, d, e⟩
    invFun := fun d => (d.sampleTimeNs, d.rails, d.temperatureC, d.alarmFlags, d.sampleCount)
    left_inv := fun _ => rfl
    right_inv := fun _ => rfl }

def ModeStatus.codec : Codec ModeStatus :=
  (u64.pair (u32.pair (u8.pair (u8.pair (u16.pair (u32.pair (u32.pair (u32.pair u32)))))))).iso {
    toFun := fun (a, b, c, d, e, f, g, h, i) => ⟨a, b, c, d, e, f, g, h, i⟩
    invFun := fun d => (d.sampleTimeNs, d.uptimeS, d.mode, d.previousMode, d.modeChangeCount, d.statusFlags, d.faultCode,
      d.timeInModeS, d.heartbeat)
    left_inv := fun _ => rfl
    right_inv := fun _ => rfl }

def PtpStats.codec : Codec PtpStats :=
  (u64.pair ((u8.vec 8).pair (i64.pair (i64.pair (i32.pair (u16.pair (i16.pair (u8.pair (u8.pair (u8.pair (u8.pair
    (u32.pair (u32.pair u32))))))))))))).iso {
    toFun := fun (a, b, c, d, e, f, g, h, i, j, k, l, m, n) => ⟨a, b, c, d, e, f, g, h, i, j, k, l, m, n⟩
    invFun := fun d => (d.sampleTimeNs, d.grandmasterIdentity, d.offsetFromMasterNs, d.meanPathDelayNs, d.freqAdjustmentPpb,
      d.stepsRemoved, d.currentUtcOffsetS, d.portState, d.servoState, d.gmClockClass, d.flags, d.syncRxCount,
      d.announceTimeoutCount, d.reserved)
    left_inv := fun _ => rfl
    right_inv := fun _ => rfl }

@[simp] theorem u8_width : u8.width = 1 := rfl
@[simp] theorem u16_width : u16.width = 2 := rfl
@[simp] theorem u32_width : u32.width = 4 := rfl
@[simp] theorem u64_width : u64.width = 8 := rfl
@[simp] theorem f32_width : f32.width = 4 := rfl
@[simp] theorem i16_width : i16.width = 2 := rfl
@[simp] theorem i32_width : i32.width = 4 := rfl
@[simp] theorem i64_width : i64.width = 8 := rfl
@[simp] theorem rail_width : PowerRailReading.codec.width = 8 := rfl

end Codecs

section Telemetry

/-- A record of one of the three types. -/
inductive Telemetry where
  | boardHealth (d : BoardHealth)
  | modeStatus (d : ModeStatus)
  | ptpStats (d : PtpStats)
  deriving DecidableEq

namespace Telemetry

def type : Telemetry → UInt16
  | .boardHealth _ => kDataBoardHealth
  | .modeStatus _ => kDataModeStatus
  | .ptpStats _ => kDataPtpStats

/-- The encoding. -/
def bytes : Telemetry → Bytes
  | .boardHealth d => BoardHealth.codec.put d
  | .modeStatus d => ModeStatus.codec.put d
  | .ptpStats d => PtpStats.codec.put d

/-- The record of a type at an offset. -/
def readAt (type : UInt16) (b : Bytes) (off : Nat) : Option Telemetry :=
  if type = kDataBoardHealth then some (.boardHealth (BoardHealth.codec.readAt b off))
  else if type = kDataModeStatus then some (.modeStatus (ModeStatus.codec.readAt b off))
  else if type = kDataPtpStats then some (.ptpStats (PtpStats.codec.readAt b off))
  else none

theorem length_bytes (d : Telemetry) : d.bytes.length = dataSize d.type := by
  cases d with
  | boardHealth d => exact BoardHealth.codec.length_put d
  | modeStatus d => exact ModeStatus.codec.length_put d
  | ptpStats d => exact PtpStats.codec.length_put d

/-- There is a record of every data type, and of no other number. -/
theorem readAt_eq_none {type : UInt16} {b : Bytes} {off : Nat} : readAt type b off = none ↔ dataSize type = 0 := by
  unfold readAt dataSize
  split
  · exact iff_of_false (by simp) (by decide)
  split
  · exact iff_of_false (by simp) (by decide)
  split
  · exact iff_of_false (by simp) (by decide)
  · exact iff_of_true rfl rfl

theorem type_cases {type : UInt16} (known : dataSize type ≠ 0) :
    type = kDataBoardHealth ∨ type = kDataModeStatus ∨ type = kDataPtpStats := by
  unfold dataSize at known
  split at known
  next eq => exact .inl eq
  split at known
  next eq => exact .inr (.inl eq)
  split at known
  next eq => exact .inr (.inr eq)
  · exact absurd rfl known

theorem type_of_readAt {type : UInt16} {b : Bytes} {off : Nat} {d : Telemetry} (read : readAt type b off = some d) :
    d.type = type := by
  unfold readAt at read
  split at read
  next eq => cases read; exact eq.symm
  next =>
  split at read
  next eq => cases read; exact eq.symm
  next =>
  split at read
  next eq => cases read; exact eq.symm
  next => cases read

/-- What was written behind other bytes is read from there. -/
theorem readAt_bytes (d : Telemetry) (pre post : Bytes) : readAt d.type (pre ++ (d.bytes ++ post)) pre.length = some d := by
  cases d with
  | boardHealth d => exact congrArg (some ∘ Telemetry.boardHealth) (Codec.readAt_put d pre post)
  | modeStatus d => exact congrArg (some ∘ Telemetry.modeStatus) (Codec.readAt_put d pre post)
  | ptpStats d => exact congrArg (some ∘ Telemetry.ptpStats) (Codec.readAt_put d pre post)

/-- What is read has the bytes that it was read from. -/
theorem bytes_of_readAt {type : UInt16} {b : Bytes} {off : Nat} {d : Telemetry} (read : readAt type b off = some d)
    (within : off + dataSize type ≤ b.length) : d.bytes = (b.drop off).take (dataSize type) := by
  unfold readAt at read
  split at read
  next eq =>
    subst eq; cases read
    exact Codec.put_readAt within
  next =>
  split at read
  next eq =>
    subst eq; cases read
    exact Codec.put_readAt within
  next =>
  split at read
  next eq =>
    subst eq; cases read
    exact Codec.put_readAt within
  next => cases read

end Telemetry

end Telemetry

section Stores

/-- Stores one behind the other fill the gap that they are written into, and write nothing else. -/
theorem store_contiguous {pre hole post : Bytes} {n base : Nat} {ps : List (Patch UInt8)} (contiguous : Contiguous n ps)
    (at_gap : base + n = pre.length) (filled : (ps.flatMap Patch.data).length = hole.length) :
    store (pre ++ (hole ++ post)) base ps = .ok (pre ++ (ps.flatMap Patch.data ++ post)) := by
  induction ps generalizing pre hole n with
  | nil =>
    obtain rfl := List.eq_nil_of_length_eq_zero filled.symm
    rfl
  | cons p ps ih =>
    obtain ⟨off, rest⟩ := contiguous
    rw [List.flatMap_cons, List.length_append] at filled
    have fits : base + p.off + p.data.length ≤ (pre ++ (hole ++ post)).length := by
      rw [List.length_append, List.length_append]; omega
    have next : base + (n + p.data.length) = (pre ++ p.data).length := by rw [List.length_append]; omega
    have left : (ps.flatMap Patch.data).length = (hole.drop p.data.length).length := by rw [List.length_drop]; omega
    rw [store, memcpy_of_fits fits (le_refl _), List.take_length, off, at_gap, splice_gap (by omega)]
    change store _ base ps = _
    rw [ih rest next left, List.flatMap_cons, List.append_assoc, List.append_assoc]

theorem contiguous_railStores (p : Nat) (rs : List PowerRailReading) : Contiguous p (railStores p rs) := by
  induction rs generalizing p with
  | nil => trivial
  | cons r rs ih => exact ⟨rfl, rfl, ih (p + 8)⟩

theorem contiguous_temperatureStores (p : Nat) (cs : List F32) : Contiguous p (temperatureStores p cs) := by
  induction cs generalizing p with
  | nil => trivial
  | cons c cs ih => exact ⟨rfl, ih (p + 4)⟩

theorem putF32le_eq (v : F32) : putF32le v = f32.put v := putU32le_eq v.bits

theorem railStores_data (p : Nat) (rs : List PowerRailReading) :
    (railStores p rs).flatMap Patch.data = rs.flatMap PowerRailReading.codec.put := by
  induction rs generalizing p with
  | nil => rfl
  | cons r rs ih =>
    rw [railStores, List.flatMap_cons, List.flatMap_cons, ih, List.flatMap_cons, putF32le_eq, putF32le_eq, ← List.append_assoc]
    rfl

theorem temperatureStores_data (p : Nat) (cs : List F32) :
    (temperatureStores p cs).flatMap Patch.data = cs.flatMap f32.put := by
  induction cs generalizing p with
  | nil => rfl
  | cons c cs ih => rw [temperatureStores, List.flatMap_cons, List.flatMap_cons, ih, putF32le_eq]

theorem BoardHealth.stores_contiguous (d : BoardHealth) : Contiguous 0 d.stores := by
  have rails : (d.rails.toList.flatMap PowerRailReading.codec.put).length = 48 := by
    rw [← Codec.put_vec, Codec.length_put]; rfl
  have temperatures : (d.temperatureC.toList.flatMap f32.put).length = 16 := by
    rw [← Codec.put_vec, Codec.length_put]; rfl
  have first : Contiguous 0 ([⟨0, putU64le d.sampleTimeNs⟩] : List (Patch UInt8)) := ⟨rfl, trivial⟩
  refine ((first.append ?_).append ?_).append ?_
  · exact contiguous_railStores 8 _
  · simp only [List.flatMap_append, List.length_append, railStores_data, rails, List.flatMap_cons, List.flatMap_nil,
      length_putU64le, List.length_nil]
    exact contiguous_temperatureStores 56 _
  · simp only [List.flatMap_append, List.length_append, railStores_data, rails, temperatureStores_data, temperatures,
      List.flatMap_cons, List.flatMap_nil, length_putU64le, List.length_nil]
    exact ⟨rfl, rfl, trivial⟩

theorem ModeStatus.stores_contiguous (d : ModeStatus) : Contiguous 0 d.stores :=
  ⟨rfl, rfl, rfl, rfl, rfl, rfl, rfl, rfl, rfl, trivial⟩

theorem PtpStats.stores_contiguous (d : PtpStats) : Contiguous 0 d.stores := by
  have identity : d.grandmasterIdentity.toList.length = 8 := List.Vector.toList_length _
  simp only [PtpStats.stores, Contiguous, identity, length_putU64le, length_putU32le, length_putU16le, putI64le, putU8,
    List.length_singleton, Nat.reduceAdd, and_self]

theorem putU8_eq (v : UInt8) : putU8 v = u8.put v := by
  change [v] = [UInt8.ofNat v.toNat]
  rw [UInt8.ofNat_toNat]

theorem BoardHealth.stores_data (d : BoardHealth) : d.stores.flatMap Patch.data = BoardHealth.codec.put d := by
  change _ = u64.put d.sampleTimeNs ++ ((PowerRailReading.codec.vec kNumPowerRails).put d.rails ++
    ((f32.vec kNumTempSensors).put d.temperatureC ++ (u32.put d.alarmFlags ++ u32.put d.sampleCount)))
  simp only [BoardHealth.stores, List.flatMap_append, railStores_data, temperatureStores_data, Codec.put_vec,
    List.flatMap_cons, List.flatMap_nil, List.append_assoc, List.append_nil, putU64le_eq, putU32le_eq]
  rfl

theorem ModeStatus.stores_data (d : ModeStatus) : d.stores.flatMap Patch.data = ModeStatus.codec.put d := by
  simp only [ModeStatus.stores, List.flatMap_cons, List.flatMap_nil, List.append_nil, putU64le_eq, putU32le_eq,
    putU16le_eq, putU8_eq]
  rfl

theorem PtpStats.stores_data (d : PtpStats) : d.stores.flatMap Patch.data = PtpStats.codec.put d := by
  have identity : d.grandmasterIdentity.toList = (u8.vec 8).put d.grandmasterIdentity := by
    rw [Codec.put_vec]
    exact (List.flatMap_singleton' _).symm.trans (List.flatMap_congr fun v _ => putU8_eq v)
  simp only [PtpStats.stores, List.flatMap_cons, List.flatMap_nil, List.append_nil, putU64le_eq, putU32le_eq,
    putU16le_eq, putU8_eq, putI64le, identity]
  rfl

end Stores

namespace Telemetry

/-- `encode` of the record. -/
def encode : Telemetry → Bytes → Nat → Exec Bytes
  | .boardHealth d => d.encode
  | .modeStatus d => d.encode
  | .ptpStats d => d.encode

/-- The encoder writes the encoding into a gap of its size. -/
theorem encode_gap (d : Telemetry) {pre hole post : Bytes} {base : Nat} (at_gap : base = pre.length)
    (size : hole.length = dataSize d.type) :
    d.encode (pre ++ (hole ++ post)) base = .ok (pre ++ (d.bytes ++ post)) := by
  have length := d.length_bytes
  have run (ps : List (Patch UInt8)) (contiguous : Contiguous 0 ps) (data : ps.flatMap Patch.data = d.bytes) :
      store (pre ++ (hole ++ post)) base ps = .ok (pre ++ (d.bytes ++ post)) := by
    rw [store_contiguous contiguous at_gap (by rw [data, length, size]), data]
  cases d with
  | boardHealth d => exact run d.stores d.stores_contiguous d.stores_data
  | modeStatus d => exact run d.stores d.stores_contiguous d.stores_data
  | ptpStats d => exact run d.stores d.stores_contiguous d.stores_data

end Telemetry

section Reads

/-- Inside the string, `read` finds what the codec says. -/
def Reads {α : Type} (c : Codec α) (b : Bytes) (read : Nat → Exec α) : Prop :=
  ∀ off, off + c.width ≤ b.length → read off = .ok (c.readAt b off)

theorem reads_u8 (b : Bytes) : Reads u8 b (getU8 b) := by
  intro off within
  have inside : off < b.length := within
  have covered : (b.drop off).take 1 = [b[off]] := take_drop_succ inside 0
  rw [getU8, byteAt_of_lt inside]
  change _ = Except.ok (UInt8.ofNat (ofBytes ((b.drop off).take 1)))
  rw [covered, ofBytes, ofBytes, Nat.mul_zero, Nat.add_zero, UInt8.ofNat_toNat]

theorem reads_u16 (b : Bytes) : Reads u16 b (getU16le b) := fun _ => getU16le_spec

theorem reads_u32 (b : Bytes) : Reads u32 b (getU32le b) := fun _ => getU32le_spec

theorem reads_u64 (b : Bytes) : Reads u64 b (getU64le b) := fun _ => getU64le_spec

theorem reads_f32 (b : Bytes) : Reads f32 b (getF32le b) := by
  intro off within
  rw [getF32le, reads_u32 b off within]
  rfl

theorem reads_rail (b : Bytes) : Reads PowerRailReading.codec b (readRail b) := by
  intro off within
  rw [rail_width] at within
  rw [readRail, reads_f32 b off (by rw [f32_width]; omega), reads_f32 b (off + 4) (by rw [f32_width]; omega)]
  change _ = Except.ok (((f32.pair f32).iso _).readAt b off)
  rw [Codec.readAt_iso, Codec.readAt_pair]
  rfl

/-- A loop reads an array of what its body reads. -/
theorem Reads.array {α : Type} {c : Codec α} {b : Bytes} {read : Nat → Exec α} (reads : Reads c b read) (n : Nat) :
    Reads (c.vec n) b (readArray read c.width n) := by
  induction n with
  | zero => exact fun _ _ => rfl
  | succ n ih =>
    intro off within
    have width : (c.vec (n + 1)).width = c.width + (c.vec n).width := rfl
    rw [width] at within
    rw [readArray, reads off (by omega), Codec.readAt_vec]
    change (readArray read c.width n (off + c.width) >>= _) = _
    rw [ih _ (by omega)]
    rfl

/-- A field is read in front of what the others are read by. -/
theorem Reads.bind {α β : Type} {c : Codec α} {b : Bytes} {read : Nat → Exec α} (reads : Reads c b read) {off : Nat}
    (within : off + c.width ≤ b.length) (next : α → Exec β) : (read off >>= next) = next (c.readAt b off) := by
  rw [reads off within]
  rfl

theorem reads_testHeader (b : Bytes) : Reads TestHeader.codec b (TestHeader.decode b) := by
  intro base within
  change base + 24 ≤ b.length at within
  unfold TestHeader.decode
  rw [(reads_u32 b).bind (by simp; omega), (reads_u32 b).bind (by simp; omega), (reads_u64 b).bind (by simp; omega),
    (reads_u32 b).bind (by simp; omega), (reads_u16 b).bind (by simp; omega), (reads_u16 b).bind (by simp; omega)]
  unfold TestHeader.codec
  simp only [Codec.readAt_iso, Codec.readAt_pair, u16_width, u32_width, u64_width, Nat.add_assoc, Nat.reduceAdd]
  rfl

theorem reads_boardHealth (b : Bytes) : Reads BoardHealth.codec b (BoardHealth.decode b) := by
  intro base within
  change base + 80 ≤ b.length at within
  have rails : (PowerRailReading.codec.vec kNumPowerRails).width = 48 := rfl
  have temperatures : (f32.vec kNumTempSensors).width = 16 := rfl
  unfold BoardHealth.decode
  rw [(reads_u64 b).bind (by simp; omega)]
  change (readArray (readRail b) PowerRailReading.codec.width kNumPowerRails (base + 8) >>= _) = _
  rw [((reads_rail b).array kNumPowerRails).bind (by rw [rails]; omega)]
  change (readArray (getF32le b) f32.width kNumTempSensors (base + 8 + 48) >>= _) = _
  rw [((reads_f32 b).array kNumTempSensors).bind (by rw [temperatures]; omega)]
  change (getU32le b (base + 8 + 48 + 16) >>= _) = _
  rw [(reads_u32 b).bind (by simp; omega)]
  change (getU32le b (base + 8 + 48 + 16 + 4) >>= _) = _
  rw [(reads_u32 b).bind (by simp; omega)]
  unfold BoardHealth.codec
  simp only [Codec.readAt_iso, Codec.readAt_pair, u32_width, u64_width, rails, temperatures]
  rfl

theorem reads_modeStatus (b : Bytes) : Reads ModeStatus.codec b (ModeStatus.decode b) := by
  intro base within
  change base + 32 ≤ b.length at within
  unfold ModeStatus.decode
  rw [(reads_u64 b).bind (by simp; omega), (reads_u32 b).bind (by simp; omega), (reads_u8 b).bind (by simp; omega),
    (reads_u8 b).bind (by simp; omega), (reads_u16 b).bind (by simp; omega), (reads_u32 b).bind (by simp; omega),
    (reads_u32 b).bind (by simp; omega), (reads_u32 b).bind (by simp; omega), (reads_u32 b).bind (by simp; omega)]
  unfold ModeStatus.codec
  simp only [Codec.readAt_iso, Codec.readAt_pair, u8_width, u16_width, u32_width, u64_width, Nat.add_assoc, Nat.reduceAdd]
  rfl

theorem reads_ptpStats (b : Bytes) : Reads PtpStats.codec b (PtpStats.decode b) := by
  intro base within
  change base + 56 ≤ b.length at within
  have identity : (u8.vec 8).width = 8 := rfl
  unfold PtpStats.decode
  rw [(reads_u64 b).bind (by simp; omega)]
  change (readArray (getU8 b) u8.width 8 (base + 8) >>= _) = _
  rw [((reads_u8 b).array 8).bind (by rw [identity]; omega), (reads_u64 b).bind (by simp; omega),
    (reads_u64 b).bind (by simp; omega), (reads_u32 b).bind (by simp; omega), (reads_u16 b).bind (by simp; omega),
    (reads_u16 b).bind (by simp; omega), (reads_u8 b).bind (by simp; omega), (reads_u8 b).bind (by simp; omega),
    (reads_u8 b).bind (by simp; omega), (reads_u8 b).bind (by simp; omega), (reads_u32 b).bind (by simp; omega),
    (reads_u32 b).bind (by simp; omega), (reads_u32 b).bind (by simp; omega)]
  unfold PtpStats.codec
  simp only [Codec.readAt_iso, Codec.readAt_pair, u8_width, u16_width, u32_width, u64_width, i16_width, i32_width,
    i64_width, identity, Nat.add_assoc, Nat.reduceAdd]
  rfl

end Reads

section RoundTrip

variable {α : Type}

/-- What the encoder and the decoder of a record of `size` bytes owe each other, wherever in a buffer they work. -/
structure RoundTrips (size : Nat) (stores : α → List (Patch UInt8)) (encode : α → Bytes → Nat → Exec Bytes)
    (decode : Bytes → Nat → Exec α) : Prop where
  /-- Every value is read back from what was written of it, in the place of the bytes `hole`. -/
  decoded : ∀ (d : α) (pre hole post : Bytes), hole.length = size → ∃ image : Bytes, image.length = size ∧
    encode d (pre ++ (hole ++ post)) pre.length = .ok (pre ++ (image ++ post)) ∧
    decode (pre ++ (image ++ post)) pre.length = .ok d
  /-- Every byte string of the size is written back as it was read. -/
  encoded : ∀ b pre hole post : Bytes, b.length = size → hole.length = size → ∃ d : α,
    decode b 0 = .ok d ∧ encode d (pre ++ (hole ++ post)) pre.length = .ok (pre ++ (b ++ post))
  /-- Each byte of the size is stored once, and no byte behind it. -/
  once : ∀ (d : α) (i : Nat), (stores d).countP (fun p => p.Covers i) = if i < size then 1 else 0

/-- Stores without a gap and a decoder that follow one codec. -/
theorem RoundTrips.of_codec {c : Codec α} {stores : α → List (Patch UInt8)} {decode : Bytes → Nat → Exec α}
    (contiguous : ∀ d, Contiguous 0 (stores d)) (data : ∀ d, (stores d).flatMap Patch.data = c.put d)
    (reads : ∀ b, Reads c b (decode b)) :
    RoundTrips c.width stores (fun d out base => store out base (stores d)) decode where
  decoded := by
    intro d pre hole post room
    have filled : ((stores d).flatMap Patch.data).length = hole.length := by rw [data, c.length_put, room]
    have within : pre.length + c.width ≤ (pre ++ (c.put d ++ post)).length := by
      rw [List.length_append, List.length_append, c.length_put]; omega
    refine ⟨c.put d, c.length_put d, ?_, ?_⟩
    · rw [store_contiguous (contiguous d) (Nat.add_zero _) filled, data]
    · rw [reads _ _ within, Codec.readAt_put]
  encoded := by
    intro b pre hole post size room
    have written : c.put (c.readAt b 0) = b := by
      rw [Codec.put_readAt (by omega), List.drop_zero, ← size, List.take_length]
    have filled : ((stores (c.readAt b 0)).flatMap Patch.data).length = hole.length := by rw [data, c.length_put, room]
    refine ⟨c.readAt b 0, reads b 0 (by omega), ?_⟩
    rw [store_contiguous (contiguous _) (Nat.add_zero _) filled, data, written]
  once := by
    intro d i
    rw [(contiguous d).countP_covers, data, c.length_put]
    simp only [Nat.zero_le, true_and, Nat.zero_add]

/-- The three records come back from their encoding, and every encoding of their sizes from its record. -/
theorem telemetry_round_trip :
    RoundTrips (dataSize kDataBoardHealth) BoardHealth.stores BoardHealth.encode BoardHealth.decode ∧
    RoundTrips (dataSize kDataModeStatus) ModeStatus.stores ModeStatus.encode ModeStatus.decode ∧
    RoundTrips (dataSize kDataPtpStats) PtpStats.stores PtpStats.encode PtpStats.decode :=
  ⟨RoundTrips.of_codec BoardHealth.stores_contiguous BoardHealth.stores_data reads_boardHealth,
    RoundTrips.of_codec ModeStatus.stores_contiguous ModeStatus.stores_data reads_modeStatus,
    RoundTrips.of_codec PtpStats.stores_contiguous PtpStats.stores_data reads_ptpStats⟩

end RoundTrip

end IpcRelay.Testpub
