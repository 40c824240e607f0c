import IpcRelay.Lib.Occurrence
import IpcRelay.Receiver.CaptureInspect

/-!
# The payload check of the inspection tool (`verify_testpub_payload`)

The tool has its own table of the data types and reads the header by its own
format. `verifyTestpubPayload_found` says when a payload with the magic number
at a known place passes.
-/

namespace IpcRelay.CaptureInspect

open LittleEndian

def testpubMagic : Nat := 0x54534554

/-- `TESTPUB_HEADER.size`, of `<IIQIHH`. -/
def testpubHeaderSize : Nat := 24

/-- `TESTPUB_DATA_TYPES`: the name and the encoded size by the data type. -/
def testpubDataTypes : List (Nat × Bytes × Nat) :=
  [(1, str "board_health", 80), (2, str "mode_status", 32), (3, str "ptp_stats", 56)]

/-- Why a payload is refused, with the numbers in the text. -/
inductive TestpubError where
  | magicNotFound
  | tooShortForHeader
  | badMagic
  | lengthField (totalLen len : Nat)
  | unknownDataType (dataType : Nat)
  | unexpectedDataType (pubIndex dataType expected : Nat)
  | dataLength (dataType dataLen expected : Nat)
  | tooShortForData
  | filler (i msgIndex : Nat)
  deriving DecidableEq, Repr

def TestpubError.text : TestpubError → Bytes
  | .magicNotFound => str "testpub magic not found"
  | .tooShortForHeader => str "payload too short for testpub header"
  | .badMagic => str "bad testpub magic"
  | .lengthField totalLen len =>
    str "testpub length field " ++ numText totalLen ++ str " != payload length " ++ numText len
  | .unknownDataType dataType => str "unknown testpub data type " ++ numText dataType
  | .unexpectedDataType pubIndex dataType expected =>
    str "publisher " ++ numText pubIndex ++ str " sent data type " ++ numText dataType ++ str ", expected " ++ numText expected
  | .dataLength dataType dataLen expected =>
    str "data type " ++ numText dataType ++ str " has length " ++ numText dataLen ++ str ", expected " ++ numText expected
  | .tooShortForData => str "payload too short for testpub data"
  | .filler i msgIndex => str "filler mismatch at byte " ++ numText i ++ str " of message " ++ numText msgIndex

/-- The loop over the filler. -/
def checkFiller (body : Bytes) (msgIndex : Nat) : List Nat → Except TestpubError Unit
  | [] => .ok ()
  | i :: is =>
    if (body.getD i 0).toNat ≠ (msgIndex + i) % 256 then .error (.filler i msgIndex)
    else checkFiller body msgIndex is

/-- `verify_testpub_payload`: the publisher index and the message index, or why not. -/
def verifyTestpubPayload (payload : Bytes) (topicPrefixLen : Option Nat) : Except TestpubError (Nat × Nat) := do
  let idx ← match topicPrefixLen with
    | none =>
      match Occurrence.firstAt (toBytes 4 testpubMagic) payload with
      | none => .error .magicNotFound
      | some idx => .ok idx
    | some idx => .ok idx
  if payload.length < idx + testpubHeaderSize then .error .tooShortForHeader
  else
    let magic := field payload idx 4
    let pubIndex := field payload (idx + 4) 4
    let msgIndex := field payload (idx + 8) 8
    let totalLen := field payload (idx + 16) 4
    let dataType := field payload (idx + 20) 2
    let dataLen := field payload (idx + 22) 2
    if magic ≠ testpubMagic then .error .badMagic
    else if totalLen ≠ payload.length then .error (.lengthField totalLen payload.length)
    else
      match testpubDataTypes.lookup dataType with
      | none => .error (.unknownDataType dataType)
      | some (_, size) =>
        let expectedType := 1 + pubIndex % testpubDataTypes.length
        if dataType ≠ expectedType then .error (.unexpectedDataType pubIndex dataType expectedType)
        else if dataLen ≠ size then .error (.dataLength dataType dataLen size)
        else
          let body := payload.drop idx
          if body.length < testpubHeaderSize + dataLen then .error .tooShortForData
          else do
            checkFiller body msgIndex
              (List.range' (testpubHeaderSize + dataLen) (body.length - (testpubHeaderSize + dataLen)))
            .ok (pubIndex, msgIndex)

section Verified

theorem checkFiller_ok {body : Bytes} {msgIndex : Nat} {is : List Nat} :
    checkFiller body msgIndex is = .ok () ↔ ∀ i ∈ is, (body.getD i 0).toNat = (msgIndex + i) % 256 := by
  induction is with
  | nil => exact iff_of_true rfl fun _ mem => by cases mem
  | cons i is ih =>
    rw [checkFiller, List.forall_mem_cons]
    by_cases same : (body.getD i 0).toNat = (msgIndex + i) % 256
    · rw [if_neg (not_not.2 same), ih, and_iff_right same]
    · rw [if_pos same]
      exact iff_of_false (fun h => by cases h) fun h => same h.1

/-- The data type of a publisher, by the tool's table. -/
def expectedType (pubIndex : Nat) : Nat := 1 + pubIndex % 3

/-- The data length of a data type, by the tool's table. -/
def expectedLength (dataType : Nat) : Option Nat := (testpubDataTypes.lookup dataType).map Prod.snd

/-- What the tool demands of a payload that has the magic number at `idx`. -/
structure Passes (payload : Bytes) (idx pubIndex msgIndex : Nat) : Prop where
  header : idx + testpubHeaderSize ≤ payload.length
  magic : field payload idx 4 = testpubMagic
  publisher : field payload (idx + 4) 4 = pubIndex
  message : field payload (idx + 8) 8 = msgIndex
  length : field payload (idx + 16) 4 = payload.length
  type : field payload (idx + 20) 2 = expectedType pubIndex
  size : expectedLength (expectedType pubIndex) = some (field payload (idx + 22) 2)
  data : idx + testpubHeaderSize + field payload (idx + 22) 2 ≤ payload.length
  filler : ∀ i, testpubHeaderSize + field payload (idx + 22) 2 ≤ i → idx + i < payload.length →
    (payload.getD (idx + i) 0).toNat = (msgIndex + i) % 256

theorem verifyTestpubPayload_found {payload : Bytes} {idx pubIndex msgIndex : Nat}
    (found : Occurrence.firstAt (toBytes 4 testpubMagic) payload = some idx) :
    verifyTestpubPayload payload none = .ok (pubIndex, msgIndex) ↔ Passes payload idx pubIndex msgIndex := by
  have start : testpubHeaderSize = 24 := rfl
  unfold verifyTestpubPayload
  simp only [found, Machine.ok_bind]
  by_cases header : payload.length < idx + testpubHeaderSize
  · rw [if_pos header]
    exact iff_of_false (fun h => by cases h) fun h => absurd h.header (by omega)
  rw [if_neg header]
  by_cases magic : field payload idx 4 = testpubMagic
  swap
  · rw [if_pos magic]
    exact iff_of_false (fun h => by cases h) fun h => magic h.magic
  rw [if_neg (not_not.2 magic)]
  by_cases length : field payload (idx + 16) 4 = payload.length
  swap
  · rw [if_pos length]
    exact iff_of_false (fun h => by cases h) fun h => length h.length
  rw [if_neg (not_not.2 length)]
  generalize is_type : field payload (idx + 20) 2 = dataType
  generalize is_size : field payload (idx + 22) 2 = dataLen
  generalize is_pub : field payload (idx + 4) 4 = pub
  generalize is_msg : field payload (idx + 8) 8 = msg
  cases known : testpubDataTypes.lookup dataType with
  | none =>
    refine iff_of_false (fun h => by cases h) fun h => ?_
    have size := h.size
    rw [← h.type, is_type, expectedLength, known] at size
    cases size
  | some entry =>
    obtain ⟨name, size⟩ := entry
    have lookup : expectedLength dataType = some size := by rw [expectedLength, known]; rfl
    dsimp only
    by_cases type : dataType = 1 + pub % testpubDataTypes.length
    swap
    · rw [if_pos type]
      refine iff_of_false (fun h => by cases h) fun h => type ?_
      have eq := h.type
      rw [is_type, ← h.publisher, is_pub] at eq
      exact eq
    rw [if_neg (not_not.2 type)]
    by_cases sized : dataLen = size
    swap
    · rw [if_pos sized]
      refine iff_of_false (fun h => by cases h) fun h => sized ?_
      have eq := h.size
      rw [← h.type, is_type, lookup, is_size] at eq
      exact (Option.some.inj eq).symm
    rw [if_neg (not_not.2 sized), List.length_drop]
    by_cases data : payload.length - idx < testpubHeaderSize + dataLen
    · rw [if_pos data]
      refine iff_of_false (fun h => by cases h) fun h => ?_
      have eq := h.data
      rw [is_size] at eq
      omega
    rw [if_neg data]
    have covers : (∀ i ∈ List.range' (testpubHeaderSize + dataLen) (payload.length - idx - (testpubHeaderSize + dataLen)),
        ((payload.drop idx).getD i 0).toNat = (msg + i) % 256) ↔
        ∀ i, testpubHeaderSize + dataLen ≤ i → idx + i < payload.length →
          (payload.getD (idx + i) 0).toNat = (msg + i) % 256 := by
      have behind (i : Nat) : (payload.drop idx).getD i 0 = payload.getD (idx + i) 0 := by
        rw [List.getD_eq_getElem?_getD, List.getElem?_drop, ← List.getD_eq_getElem?_getD]
      simp only [behind, List.mem_range'_1]
      constructor
      · intro all i lo hi
        exact all i ⟨lo, by omega⟩
      · rintro all i ⟨lo, hi⟩
        exact all i lo (by omega)
    cases filled : checkFiller (payload.drop idx) msg
        (List.range' (testpubHeaderSize + dataLen) (payload.length - idx - (testpubHeaderSize + dataLen))) with
    | error e =>
      refine iff_of_false (fun h => by cases h) fun h => ?_
      have all := h.filler
      rw [is_size, ← h.message, is_msg] at all
      rw [checkFiller_ok.2 (covers.2 all)] at filled
      cases filled
    | ok u =>
      have all := covers.1 (checkFiller_ok.1 filled)
      constructor
      · intro h
        cases h
        have is_expected : field payload (idx + 20) 2 = expectedType pubIndex := is_type.trans type
        refine ⟨by omega, magic, is_pub, is_msg, length, is_expected, ?_, ?_, ?_⟩
        · rw [← is_expected, is_type, lookup, is_size, sized]
        · rw [is_size]; omega
        · rw [is_size]; exact all
      · intro h
        rw [← h.publisher, ← h.message, is_pub, is_msg]
        rfl

end Verified

end IpcRelay.CaptureInspect
