import IpcRelay.Common.WireFacts

/-!
# The documented datagrams

The layout table and the validation rules of the wire format document, over
natural numbers: `fieldsOf` reads the eleven fields of a byte string at their
offsets, `Violates` is rule by rule what a receiver must reject. The document
is what `parse_datagram` computes (`parseDatagram_documented`), and on the
accepted datagrams `encode_header` is its inverse up to the reserved bytes
(`wire_round_trip`).
-/

namespace IpcRelay.Wire

open LittleEndian

/-- The header fields as numbers. -/
@[ext] structure Fields where
  magic : Nat
  version : Nat
  flags : Nat
  sourceId : Nat
  messageLength : Nat
  sequence : Nat
  timestampNs : Nat
  fragmentOffset : Nat
  fragmentIndex : Nat
  fragmentCount : Nat
  fragmentLength : Nat
  deriving DecidableEq, Repr

/-- The layout table. -/
def fieldsOf (data : Bytes) : Fields where
  magic := field data 0 4
  version := field data 4 2
  flags := field data 6 2
  sourceId := field data 8 4
  messageLength := field data 12 4
  sequence := field data 16 8
  timestampNs := field data 24 8
  fragmentOffset := field data 32 4
  fragmentIndex := field data 36 2
  fragmentCount := field data 38 2
  fragmentLength := field data 40 2

/-- The fields that a header stands for; the magic number is always the protocol's. -/
def Header.fields (h : Header) : Fields where
  magic := 0x42554D5A
  version := h.version.toNat
  flags := h.flags.toNat
  sourceId := h.sourceId.toNat
  messageLength := h.messageLength.toNat
  sequence := h.sequence.toNat
  timestampNs := h.timestampNs.toNat
  fragmentOffset := h.fragmentOffset.toNat
  fragmentIndex := h.fragmentIndex.toNat
  fragmentCount := h.fragmentCount.toNat
  fragmentLength := h.fragmentLength.toNat

/-- The `FRAGMENTED` bit of the flags. -/
def Fields.Fragmented (f : Fields) : Prop := f.flags % 2 = 1

/-- The eight validation rules, each under the name a violation is counted as,
for a datagram of `len` bytes. -/
def Violates (len : Nat) (f : Fields) : ParseError → Prop
  | .none => False
  | .truncated => len < 44
  | .badMagic => f.magic ≠ 0x42554D5A
  | .badVersion => f.version ≠ 1
  | .badFragmentCount => f.fragmentCount = 0
  | .badFragmentIndex => f.fragmentIndex ≥ f.fragmentCount
  | .lengthMismatch => len ≠ 44 + f.fragmentLength
  | .rangeError =>
      f.fragmentOffset + f.fragmentLength > f.messageLength ∨
      (f.fragmentCount = 1 ∧ (f.fragmentOffset ≠ 0 ∨ f.fragmentLength ≠ f.messageLength)) ∨
      (f.fragmentIndex + 1 = f.fragmentCount ∧ f.fragmentOffset + f.fragmentLength ≠ f.messageLength) ∨
      (f.fragmentIndex + 1 ≠ f.fragmentCount ∧ f.fragmentLength = 0)
  | .flagMismatch => ¬ (f.Fragmented ↔ f.fragmentCount > 1)

/-- No rule is violated. -/
def Obeys (len : Nat) (f : Fields) : Prop := ∀ rule, ¬ Violates len f rule

section Fields

theorem field_lt (data : Bytes) (off w : Nat) : field data off w < 256 ^ w := by
  have lt := ofBytes_lt ((data.drop off).take w)
  have short : ((data.drop off).take w).length ≤ w := List.length_take_le _ _
  exact lt.trans_le (Nat.pow_le_pow_right (by decide) short)

/-- The header that `parse_datagram` fills in stands for the fields of the datagram. -/
theorem fields_headerOf {data : Bytes} (magic : field data 0 4 = 0x42554D5A) :
    (headerOf data).fields = fieldsOf data := by
  have two (off : Nat) : (UInt16.ofNat (field data off 2)).toNat = field data off 2 :=
    UInt16.toNat_ofNat_of_lt' (field_lt data off 2)
  have four (off : Nat) : (UInt32.ofNat (field data off 4)).toNat = field data off 4 :=
    UInt32.toNat_ofNat_of_lt' (field_lt data off 4)
  have eight (off : Nat) : (UInt64.ofNat (field data off 8)).toNat = field data off 8 :=
    UInt64.toNat_ofNat_of_lt' (field_lt data off 8)
  simp only [Header.fields, headerOf, fieldsOf, two, four, eight, magic]

theorem badMagic_iff (data : Bytes) :
    UInt32.ofNat (field data 0 4) ≠ kMagic ↔ (fieldsOf data).magic ≠ 0x42554D5A := by
  rw [ne_eq, ← UInt32.toNat_inj, UInt32.toNat_ofNat_of_lt' (field_lt data 0 4)]
  exact Iff.rfl

theorem badVersion_iff (data : Bytes) :
    UInt16.ofNat (field data 4 2) ≠ kVersion ↔ (fieldsOf data).version ≠ 1 := by
  rw [ne_eq, ← UInt16.toNat_inj, UInt16.toNat_ofNat_of_lt' (field_lt data 4 2)]
  exact Iff.rfl

theorem fragmented_iff (h : Header) : h.flags &&& kFlagFragmented ≠ 0 ↔ h.fields.Fragmented := by
  have low : (h.flags &&& kFlagFragmented).toNat = h.flags.toNat % 2 := by
    rw [UInt16.toNat_and]
    exact Nat.and_one_is_mod _
  rw [ne_eq, ← UInt16.toNat_inj, low]
  show ¬ h.flags.toNat % 2 = 0 ↔ h.flags.toNat % 2 = 1
  omega

end Fields

section Rules

variable {len : Nat} {h : Header}

/-- The name that the field checks report is the name of a rule that is violated. -/
theorem checkFields_violates (bad : checkFields len h ≠ .none) : Violates len h.fields (checkFields len h) := by
  have frag := fragmented_iff h
  unfold checkFields at bad ⊢
  dsimp only at bad ⊢
  split
  next zero =>
    exact congrArg UInt16.toNat zero
  next count =>
  have pos := toNat_pos_iff.1 count
  split
  next index =>
    exact UInt16.le_iff_toNat_le.1 index
  split
  next length => exact length
  split
  next range => exact .inl range
  split
  next one =>
    have one' : h.fields.fragmentCount = 1 := congrArg UInt16.toNat one
    split
    next whole =>
      refine .inr (.inl ⟨one', whole.imp_left fun ne zero => ne (UInt32.toNat_inj.1 zero)⟩)
    split
    next flag =>
      intro agree
      have := agree.1 (frag.1 flag)
      omega
    next => simp_all
  next several =>
    have several' : h.fields.fragmentCount ≠ 1 := fun one => several (UInt16.toNat_inj.1 one)
    split
    next flag =>
      intro agree
      refine frag.2 (agree.2 ?_) flag
      show 1 < h.fragmentCount.toNat
      have : h.fragmentCount.toNat ≠ 1 := several'
      omega
    split
    next last =>
      split
      next stop => exact .inr (.inr (.inl ⟨last, stop⟩))
      next => simp_all
    next inner =>
      split
      next zero => exact .inr (.inr (.inr ⟨inner, congrArg UInt16.toNat zero⟩))
      next => simp_all

/-- Fields that pass the checks violate no rule. -/
theorem Header.Valid.obeys (valid : h.Valid) (version : h.version = kVersion)
    (length : len = kHeaderSize + h.fragmentLength.toNat) : Obeys len h.fields := by
  have count := valid.countPos
  have index := valid.index
  have range := valid.range
  have frag := fragmented_iff h
  have one_iff : h.fragmentCount = 1 ↔ h.fragmentCount.toNat = 1 := by
    rw [← UInt16.toNat_inj]
    exact Iff.rfl
  intro rule
  cases rule with
  | none => exact not_false
  | truncated =>
    show ¬ len < 44
    rw [length, kHeaderSize]
    omega
  | badMagic => exact not_not.2 rfl
  | badVersion => exact not_not.2 (congrArg UInt16.toNat version)
  | badFragmentCount => exact count.ne'
  | badFragmentIndex => exact not_le.2 index
  | lengthMismatch => exact not_not.2 length
  | rangeError =>
    rintro (beyond | ⟨one, part⟩ | ⟨last, stop⟩ | ⟨inner, empty⟩)
    · exact absurd range (not_le.2 beyond)
    · obtain ⟨zero, all⟩ := valid.whole (one_iff.2 one)
      exact part.elim (fun ne => ne (congrArg UInt32.toNat zero)) fun ne => ne all
    · by_cases one : h.fragmentCount = 1
      · obtain ⟨zero, all⟩ := valid.whole one
        apply stop
        show h.fragmentOffset.toNat + h.fragmentLength.toNat = h.messageLength.toNat
        rw [zero, all, UInt32.toNat_zero, Nat.zero_add]
      · exact stop (valid.last one last)
    · by_cases one : h.fragmentCount = 1
      · apply inner
        show h.fragmentIndex.toNat + 1 = h.fragmentCount.toNat
        have := one_iff.1 one
        omega
      · exact valid.inner one inner (UInt16.toNat_inj.1 empty)
  | flagMismatch =>
    apply not_not.2
    rw [← frag, ne_eq, valid.flag, one_iff]
    show ¬ h.fragmentCount.toNat = 1 ↔ 1 < h.fragmentCount.toNat
    omega

/-- A header that obeys the rules passes the field checks. -/
theorem valid_of_obeys (obeys : Obeys len h.fields) :
    h.Valid ∧ h.version = kVersion ∧ len = kHeaderSize + h.fragmentLength.toNat := by
  have sound : checkFields len h = .none := by
    by_contra bad
    exact obeys _ (checkFields_violates bad)
  obtain ⟨valid, length⟩ := checkFields_eq_none.1 sound
  exact ⟨valid, UInt16.toNat_inj.1 (not_not.1 (obeys .badVersion)), length⟩

end Rules

/-- Everything that `parse_datagram` may do with a datagram and the header of its caller. -/
inductive ParseCase (data : Bytes) : Parsed → Prop where
  | accepted (magic : (fieldsOf data).magic = 0x42554D5A) (version : (headerOf data).version = kVersion)
      (valid : (headerOf data).Valid) (length : data.length = kHeaderSize + (headerOf data).fragmentLength.toNat) :
      ParseCase data ⟨.none, headerOf data, some (data.drop kHeaderSize)⟩
  | rejected {rule : ParseError} {hdr : Header} (violated : Violates data.length (fieldsOf data) rule) :
      ParseCase data ⟨rule, hdr, none⟩

theorem parseDatagram_cases (data : Bytes) (h : Header) : ∃ p, parseDatagram data h = .ok p ∧ ParseCase data p := by
  by_cases short : data.length < kHeaderSize
  · exact ⟨_, if_pos short, .rejected (show Violates _ _ .truncated from short)⟩
  refine ⟨_, parseDatagram_eq h (not_lt.1 short), ?_⟩
  unfold parsed
  by_cases magic : UInt32.ofNat (field data 0 4) ≠ kMagic
  · rw [if_pos magic]
    exact .rejected (show Violates _ _ .badMagic from (badMagic_iff data).1 magic)
  rw [if_neg magic]
  by_cases version : UInt16.ofNat (field data 4 2) ≠ kVersion
  · rw [if_pos version]
    exact .rejected (show Violates _ _ .badVersion from (badVersion_iff data).1 version)
  rw [if_neg version]
  have ours : (fieldsOf data).magic = 0x42554D5A := not_not.1 fun ne => magic ((badMagic_iff data).2 ne)
  split
  next fields =>
    obtain ⟨valid, length⟩ := checkFields_eq_none.1 fields
    exact .accepted ours (not_not.1 version) valid length
  next bad =>
    have violated := checkFields_violates bad
    rw [fields_headerOf ours] at violated
    exact .rejected violated

/-- `parse_datagram` accepts the datagrams that violate no rule of the document, with
the fields and the payload they stand for; it rejects each other one for a rule that
it violates, and without a payload. -/
theorem parseDatagram_documented (data : Bytes) (h : Header) :
    ∃ p, parseDatagram data h = .ok p ∧
      (p.err = .none ↔ Obeys data.length (fieldsOf data)) ∧
      (p.err = .none → p.hdr.fields = fieldsOf data ∧ p.payload = some (data.drop 44) ∧
        (data.drop 44).length = p.hdr.fragmentLength.toNat) ∧
      (p.err ≠ .none → Violates data.length (fieldsOf data) p.err ∧ p.payload = none) := by
  obtain ⟨p, parse, c⟩ := parseDatagram_cases data h
  refine ⟨p, parse, ?_⟩
  cases c with
  | accepted magic version valid length =>
    have same := fields_headerOf magic
    have size : (data.drop 44).length = (headerOf data).fragmentLength.toNat := by
      rw [List.length_drop, length, kHeaderSize]
      omega
    have obeys := valid.obeys version length
    rw [same] at obeys
    exact ⟨iff_of_true rfl obeys, fun _ => ⟨same, rfl, size⟩, fun no => absurd rfl no⟩
  | @rejected rule hdr violated =>
    have broken : rule ≠ .none := by
      rintro rfl
      exact violated
    exact ⟨iff_of_false broken fun obeys => obeys rule violated, fun sound => absurd sound broken, fun _ => ⟨violated, rfl⟩⟩

section RoundTrip

/-- Writing back the number in a field gives the bytes of the field. -/
theorem toBytes_field {data : Bytes} {off w : Nat} (inside : off + w ≤ data.length) :
    toBytes w (field data off w) = (data.drop off).take w := by
  have len : ((data.drop off).take w).length = w := by
    rw [List.length_take, List.length_drop]
    omega
  have back := toBytes_ofBytes ((data.drop off).take w)
  rwa [len] at back

/-- Two neighbouring slices are one. -/
theorem slice_append (data : Bytes) (off v w : Nat) :
    (data.drop off).take v ++ (data.drop (off + v)).take w = (data.drop off).take (v + w) := by
  rw [List.take_add, List.drop_drop]

/-- Encoding the header of a datagram gives back its first 42 bytes, in front of zeros for the reserved ones. -/
theorem encode_headerOf {data : Bytes} (long : kHeaderSize ≤ data.length) (magic : field data 0 4 = 0x42554D5A) :
    encodeHeader (headerOf data) = data.take 42 ++ [0, 0] := by
  have n44 : 44 ≤ data.length := long
  have same := fields_headerOf magic
  simp only [Fields.ext_iff, Header.fields, fieldsOf] at same
  obtain ⟨-, version, flags, id, mlen, seq, stamp, offset, index, count, flen⟩ := same
  have kmagic : kMagic.toNat = field data 0 4 := magic.symm
  have zero : toBytes 2 (0 : UInt16).toNat = [0, 0] := rfl
  simp only [encodeHeader_eq, putU16le_eq, putU32le_eq, putU64le_eq, zero, kmagic, version, flags, id, mlen, seq, stamp,
    offset, index, count, flen]
  simp (disch := omega) only [toBytes_field]
  have slices := fun v w => slice_append data 0 v w
  simp only [Nat.zero_add, List.drop_zero] at slices
  simp only [List.drop_zero, slices, Nat.reduceAdd]

/-- An encoded header that obeys the rules comes back from `parse_datagram` with its
payload, and an accepted datagram comes back from `encode_header` with its reserved bytes zero. -/
theorem wire_round_trip :
    (∀ (h h₀ : Header) (payload : Bytes), Obeys (kHeaderSize + h.fragmentLength.toNat) h.fields →
      payload.length = h.fragmentLength.toNat →
      parseDatagram (encodeHeader h ++ payload) h₀ = .ok ⟨.none, h, some payload⟩) ∧
    ∀ (data payload : Bytes) (h h₀ : Header), parseDatagram data h₀ = .ok ⟨.none, h, some payload⟩ →
      encodeHeader h ++ payload = data.take 42 ++ [0, 0] ++ data.drop 44 := by
  constructor
  · intro h h₀ payload obeys len
    obtain ⟨valid, version, -⟩ := valid_of_obeys obeys
    exact parse_encode h₀ version valid len
  · intro data payload h h₀ accepted
    obtain ⟨p, parse, c⟩ := parseDatagram_cases data h₀
    rw [accepted] at parse
    cases parse
    cases c with
    | accepted magic version valid length =>
      rw [encode_headerOf (by omega) magic]
      rfl

/-- The header of a one-byte message. -/
def oneByte : Header := { messageLength := 1, fragmentLength := 1 }

/-- The one-byte message encoded, and the same datagram with its reserved bytes set. -/
theorem wire_round_trip_oneByte :
    parseDatagram (encodeHeader oneByte ++ [7]) {} = .ok ⟨.none, oneByte, some [7]⟩ ∧
    encodeHeader oneByte ++ [7] = (encodeHeader oneByte).take 42 ++ [0, 0] ++ [7] := by
  have valid : oneByte.Valid := by decide +kernel
  have reserved : parseDatagram ((encodeHeader oneByte).take 42 ++ [5, 6] ++ [7]) {} = .ok ⟨.none, oneByte, some [7]⟩ := by
    decide +kernel
  refine ⟨wire_round_trip.1 oneByte {} [7] (valid.obeys rfl rfl) rfl, ?_⟩
  exact wire_round_trip.2 _ _ _ _ reserved

end RoundTrip

end IpcRelay.Wire
