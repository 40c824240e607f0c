import IpcRelay.Common.ByteOrder

/-!
# UDP wire protocol (`common/wire_protocol.hpp`, `common/wire_protocol.cpp`)

The transport header, its encoder, the validation of a received datagram and
the number of fragments of a message.
-/

namespace IpcRelay.Wire

open Overlay

def kMagic : UInt32 := 0x42554D5A
def kVersion : UInt16 := 1
def kHeaderSize : Nat := 44
def kFlagFragmented : UInt16 := 0x0001
def kFlagMultipart : UInt16 := 0x0002
def kMaxUdpPayload : Nat := 65507
def kMaxMessageLength : Nat := 0xFFFFFFFF

structure Header where
  version : UInt16 := kVersion
  flags : UInt16 := 0
  sourceId : UInt32 := 0
  messageLength : UInt32 := 0
  sequence : UInt64 := 0
  timestampNs : UInt64 := 0
  fragmentOffset : UInt32 := 0
  fragmentIndex : UInt16 := 0
  fragmentCount : UInt16 := 1
  fragmentLength : UInt16 := 0
  deriving DecidableEq, Repr

/-- `encode_header`: every field is put at its own offset of the output, of
which all `kHeaderSize` bytes are overwritten. -/
def encodeHeader (h : Header) : Bytes :=
  let out := List.replicate kHeaderSize 0
  let out := splice out 0 (putU32le kMagic)
  let out := splice out 4 (putU16le h.version)
  let out := splice out 6 (putU16le h.flags)
  let out := splice out 8 (putU32le h.sourceId)
  let out := splice out 12 (putU32le h.messageLength)
  let out := splice out 16 (putU64le h.sequence)
  let out := splice out 24 (putU64le h.timestampNs)
  let out := splice out 32 (putU32le h.fragmentOffset)
  let out := splice out 36 (putU16le h.fragmentIndex)
  let out := splice out 38 (putU16le h.fragmentCount)
  let out := splice out 40 (putU16le h.fragmentLength)
  splice out 42 (putU16le 0)

inductive ParseError where
  | none
  | truncated
  | badMagic
  | badVersion
  | badFragmentCount
  | badFragmentIndex
  | lengthMismatch
  | rangeError
  | flagMismatch
  deriving DecidableEq, Repr

/-- `to_string(ParseError)`. -/
def ParseError.toText : ParseError → Bytes
  | .none => str "ok"
  | .truncated => str "truncated"
  | .badMagic => str "bad_magic"
  | .badVersion => str "bad_version"
  | .badFragmentCount => str "bad_fragment_count"
  | .badFragmentIndex => str "bad_fragment_index"
  | .lengthMismatch => str "length_mismatch"
  | .rangeError => str "range_error"
  | .flagMismatch => str "flag_mismatch"

/-- What `parse_datagram` leaves behind: its result, the header as far as it was
filled in, and the payload pointer with the bytes behind it (`nullptr` is `none`). -/
structure Parsed where
  err : ParseError
  hdr : Header
  payload : Option Bytes
  deriving DecidableEq, Repr

/-- The second half of `parse_datagram`: the checks on the decoded fields. -/
def checkFields (len : Nat) (h : Header) : ParseError :=
  if h.fragmentCount = 0 then .badFragmentCount
  else if h.fragmentIndex ≥ h.fragmentCount then .badFragmentIndex
  else if len ≠ kHeaderSize + h.fragmentLength.toNat then .lengthMismatch
  else
    -- computed in 64 bits: it cannot wrap
    let stop := h.fragmentOffset.toNat + h.fragmentLength.toNat
    if stop > h.messageLength.toNat then .rangeError
    else if h.fragmentCount = 1 then
      if h.fragmentOffset ≠ 0 ∨ h.fragmentLength.toNat ≠ h.messageLength.toNat then .rangeError
      else if h.flags &&& kFlagFragmented ≠ 0 then .flagMismatch
      else .none
    else if h.flags &&& kFlagFragmented = 0 then .flagMismatch
    else if h.fragmentIndex.toNat + 1 = h.fragmentCount.toNat then
      if stop ≠ h.messageLength.toNat then .rangeError else .none
    else if h.fragmentLength = 0 then .rangeError
    else .none

/-- `parse_datagram`; `h` is the caller's header, overwritten field by field. -/
def parseDatagram (data : Bytes) (h : Header) : Exec Parsed :=
  if data.length < kHeaderSize then .ok ⟨.truncated, h, none⟩
  else do
    if (← getU32le data 0) ≠ kMagic then .ok ⟨.badMagic, h, none⟩
    else do
      let h := { h with version := ← getU16le data 4 }
      if h.version ≠ kVersion then .ok ⟨.badVersion, h, none⟩
      else do
        let h := { h with flags := ← getU16le data 6 }
        let h := { h with sourceId := ← getU32le data 8 }
        let h := { h with messageLength := ← getU32le data 12 }
        let h := { h with sequence := ← getU64le data 16 }
        let h := { h with timestampNs := ← getU64le data 24 }
        let h := { h with fragmentOffset := ← getU32le data 32 }
        let h := { h with fragmentIndex := ← getU16le data 36 }
        let h := { h with fragmentCount := ← getU16le data 38 }
        let h := { h with fragmentLength := ← getU16le data 40 }
        match checkFields data.length h with
        | .none => .ok ⟨.none, h, some (data.drop kHeaderSize)⟩
        | err => .ok ⟨err, h, none⟩

/-- `fragment_count_for`; the sum is a `size_t` and wraps at `2 ^ 64`. -/
def fragmentCountFor (messageLength fragmentPayload : Nat) : Nat :=
  if fragmentPayload = 0 then 0
  else if messageLength = 0 then 1
  else (messageLength + fragmentPayload - 1) % 2 ^ 64 / fragmentPayload

end IpcRelay.Wire
