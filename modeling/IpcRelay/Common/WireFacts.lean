import IpcRelay.Common.WireProtocol

/-!
# What the wire protocol accepts

`parseDatagram_eq` resolves every read of `parse_datagram`; from then on an
accepted datagram is `Header.Valid` fields in front of exactly
`fragment_length` bytes (`Accepted`). `parse_encode` is the way back: an
encoded valid header followed by its payload is accepted unchanged.
-/

namespace IpcRelay.Wire

open LittleEndian Overlay

/-- The header fields at their documented offsets. -/
def headerOf (data : Bytes) : Header where
  version := UInt16.ofNat (field data 4 2)
  flags := UInt16.ofNat (field data 6 2)
  sourceId := UInt32.ofNat (field data 8 4)
  messageLength := UInt32.ofNat (field data 12 4)
  sequence := UInt64.ofNat (field data 16 8)
  timestampNs := UInt64.ofNat (field data 24 8)
  fragmentOffset := UInt32.ofNat (field data 32 4)
  fragmentIndex := UInt16.ofNat (field data 36 2)
  fragmentCount := UInt16.ofNat (field data 38 2)
  fragmentLength := UInt16.ofNat (field data 40 2)

/-- `parse_datagram` on a datagram with a whole header, all reads resolved. -/
def parsed (data : Bytes) (h : Header) : Parsed :=
  if UInt32.ofNat (field data 0 4) ≠ kMagic then ⟨.badMagic, h, none⟩
  else if UInt16.ofNat (field data 4 2) ≠ kVersion then
    ⟨.badVersion, { h with version := UInt16.ofNat (field data 4 2) }, none⟩
  else match checkFields data.length (headerOf data) with
    | .none => ⟨.none, headerOf data, some (data.drop kHeaderSize)⟩
    | err => ⟨err, headerOf data, none⟩

theorem parseDatagram_eq {data : Bytes} (h : Header) (long : kHeaderSize ≤ data.length) :
    parseDatagram data h = .ok (parsed data h) := by
  have n44 : 44 ≤ data.length := long
  unfold parseDatagram parsed
  rw [if_neg (by omega)]
  simp only [getU32le_spec (show 0 + 4 ≤ data.length by omega), getU16le_spec (show 4 + 2 ≤ data.length by omega),
    getU16le_spec (show 6 + 2 ≤ data.length by omega), getU32le_spec (show 8 + 4 ≤ data.length by omega),
    getU32le_spec (show 12 + 4 ≤ data.length by omega), getU64le_spec (show 16 + 8 ≤ data.length by omega),
    getU64le_spec (show 24 + 8 ≤ data.length by omega), getU32le_spec (show 32 + 4 ≤ data.length by omega),
    getU16le_spec (show 36 + 2 ≤ data.length by omega), getU16le_spec (show 38 + 2 ≤ data.length by omega),
    getU16le_spec (show 40 + 2 ≤ data.length by omega), bind, Except.bind]
  by_cases magic : UInt32.ofNat (field data 0 4) ≠ kMagic
  · rw [if_pos magic, if_pos magic]
  · rw [if_neg magic, if_neg magic]
    by_cases version : UInt16.ofNat (field data 4 2) ≠ kVersion
    · rw [if_pos version, if_pos version]
    · rw [if_neg version, if_neg version]
      unfold headerOf
      generalize checkFields _ _ = err
      cases err <;> rfl

/-- No read of `parse_datagram` leaves the datagram, whatever its bytes and its length. -/
theorem parseDatagram_total (data : Bytes) (h : Header) : ∃ p, parseDatagram data h = .ok p := by
  by_cases short : data.length < kHeaderSize
  · exact ⟨_, if_pos short⟩
  · exact ⟨_, parseDatagram_eq h (by omega)⟩

/-- The verdict on a datagram is that it is truncated just if its header is not whole. -/
theorem parse_truncated {data : Bytes} {h : Header} {p : Parsed} (parse : parseDatagram data h = .ok p) :
    p.err = .truncated ↔ data.length < kHeaderSize := by
  by_cases short : data.length < kHeaderSize
  · rw [parseDatagram, if_pos short] at parse
    cases parse
    exact iff_of_true rfl short
  · rw [parseDatagram_eq h (by omega)] at parse
    cases parse
    refine iff_of_false ?_ short
    have fields : checkFields data.length (headerOf data) ≠ .truncated := by
      unfold checkFields
      dsimp only
      split_ifs <;> exact ParseError.noConfusion
    unfold parsed
    split
    · exact ParseError.noConfusion
    split
    · exact ParseError.noConfusion
    split
    · exact ParseError.noConfusion
    · exact fields

/-- The rules that `parse_datagram` enforces on the fields of one datagram. -/
structure Header.Valid (h : Header) : Prop where
  countPos : 0 < h.fragmentCount.toNat
  index : h.fragmentIndex.toNat < h.fragmentCount.toNat
  range : h.fragmentOffset.toNat + h.fragmentLength.toNat ≤ h.messageLength.toNat
  whole : h.fragmentCount = 1 → h.fragmentOffset = 0 ∧ h.fragmentLength.toNat = h.messageLength.toNat
  flag : h.flags &&& kFlagFragmented = 0 ↔ h.fragmentCount = 1
  last : h.fragmentCount ≠ 1 → h.fragmentIndex.toNat + 1 = h.fragmentCount.toNat →
    h.fragmentOffset.toNat + h.fragmentLength.toNat = h.messageLength.toNat
  inner : h.fragmentCount ≠ 1 → h.fragmentIndex.toNat + 1 ≠ h.fragmentCount.toNat → h.fragmentLength ≠ 0

theorem toNat_pos_iff {n : UInt16} : n ≠ 0 ↔ 0 < n.toNat := by
  rw [Nat.pos_iff_ne_zero, ne_eq, ne_eq, ← UInt16.toNat_inj, UInt16.toNat_zero]

theorem checkFields_eq_none {len : Nat} {h : Header} :
    checkFields len h = .none ↔ h.Valid ∧ len = kHeaderSize + h.fragmentLength.toNat := by
  constructor
  · intro ok
    unfold checkFields at ok
    split at ok
    · cases ok
    rename_i count
    split at ok
    · cases ok
    rename_i index
    split at ok
    · cases ok
    rename_i length
    have countPos := toNat_pos_iff.1 count
    have index' : h.fragmentIndex.toNat < h.fragmentCount.toNat := by
      rw [← UInt16.lt_iff_toNat_lt]; exact UInt16.not_le.1 index
    refine ⟨?_, not_not.1 length⟩
    dsimp only at ok
    grind [Header.Valid]
  · rintro ⟨valid, length⟩
    unfold checkFields
    have count := toNat_pos_iff.2 valid.countPos
    have index : ¬ h.fragmentIndex ≥ h.fragmentCount := by
      rw [ge_iff_le, UInt16.not_le, UInt16.lt_iff_toNat_lt]; exact valid.index
    have range := valid.range
    rw [if_neg count, if_neg index, if_neg (not_not.2 length)]
    dsimp only
    grind [Header.Valid]

instance (h : Header) : Decidable h.Valid :=
  decidable_of_iff (checkFields (kHeaderSize + h.fragmentLength.toNat) h = .none)
    (checkFields_eq_none.trans (and_iff_left rfl))

theorem parsed_eq_none {data payload : Bytes} {h hdr : Header} (ok : parsed data h = ⟨.none, hdr, some payload⟩) :
    hdr = headerOf data ∧ payload = data.drop kHeaderSize ∧ checkFields data.length (headerOf data) = .none := by
  unfold parsed at ok
  split at ok
  · cases ok
  split at ok
  · cases ok
  split at ok
  · rename_i fields
    simp only [Parsed.mk.injEq, Option.some.injEq, true_and] at ok
    exact ⟨ok.1.symm, ok.2.symm, fields⟩
  · simp at ok

/-- A datagram that `parse_datagram` accepts, with what it hands on. -/
structure Fragment where
  datagram : Bytes
  hdr : Header
  payload : Bytes
  accepted : parseDatagram datagram {} = .ok ⟨.none, hdr, some payload⟩

namespace Fragment

theorem long (f : Fragment) : kHeaderSize ≤ f.datagram.length := by
  by_contra short
  have ok := f.accepted
  rw [parseDatagram, if_pos (by omega)] at ok
  cases ok

theorem parsed_eq (f : Fragment) : parsed f.datagram {} = ⟨.none, f.hdr, some f.payload⟩ := by
  have ok := f.accepted
  rw [parseDatagram_eq {} f.long] at ok
  exact Except.ok.inj ok

theorem hdr_eq (f : Fragment) : f.hdr = headerOf f.datagram := (parsed_eq_none f.parsed_eq).1

theorem payload_eq (f : Fragment) : f.payload = f.datagram.drop kHeaderSize := (parsed_eq_none f.parsed_eq).2.1

theorem valid (f : Fragment) : f.hdr.Valid := by
  rw [f.hdr_eq]
  exact (checkFields_eq_none.1 (parsed_eq_none f.parsed_eq).2.2).1

theorem datagram_length (f : Fragment) : f.datagram.length = kHeaderSize + f.hdr.fragmentLength.toNat := by
  rw [f.hdr_eq]
  exact (checkFields_eq_none.1 (parsed_eq_none f.parsed_eq).2.2).2

theorem payload_length (f : Fragment) : f.payload.length = f.hdr.fragmentLength.toNat := by
  rw [f.payload_eq, List.length_drop, f.datagram_length]
  omega

/-- A fragment is determined by its datagram. -/
theorem eq_of_datagram {f g : Fragment} (h : f.datagram = g.datagram) : f = g := by
  obtain ⟨d, hf, pf, okf⟩ := f
  obtain ⟨d', hg, pg, okg⟩ := g
  obtain rfl : d = d' := h
  have same := okf.symm.trans okg
  simp only [Except.ok.injEq, Parsed.mk.injEq, Option.some.injEq, true_and] at same
  obtain ⟨rfl, rfl⟩ := same
  rfl

/-- The fragment of a datagram that is accepted. -/
def ofDatagram (d : Bytes) : Option Fragment :=
  match h : parseDatagram d {} with
  | .ok ⟨.none, hdr, some payload⟩ => some ⟨d, hdr, payload, h⟩
  | _ => none

theorem ofDatagram_some {d : Bytes} {f : Fragment} (h : ofDatagram d = some f) : f.datagram = d := by
  unfold ofDatagram at h
  split at h
  · cases h; rfl
  · cases h

theorem ofDatagram_datagram (f : Fragment) : ofDatagram f.datagram = some f := by
  unfold ofDatagram
  split
  · rename_i hdr payload ok
    exact congrArg some (eq_of_datagram rfl)
  · rename_i no
    exact absurd f.accepted (no _ _)

/-- A datagram is accepted, as a fragment, or rejected with a reason. -/
theorem accepted_or_rejected (d : Bytes) :
    (∃ f : Fragment, f.datagram = d) ∨ ∃ p, parseDatagram d {} = .ok p ∧ p.err ≠ .none := by
  by_cases short : d.length < kHeaderSize
  · exact .inr ⟨⟨.truncated, {}, none⟩, if_pos short, by simp⟩
  have eq : parseDatagram d {} = .ok (parsed d {}) := parseDatagram_eq {} (by omega)
  by_cases sound : (parsed d {}).err = .none
  · refine .inl ⟨⟨d, (parsed d {}).hdr, d.drop kHeaderSize, ?_⟩, rfl⟩
    rw [eq]
    unfold parsed at sound ⊢
    split
    · simp_all
    split
    · simp_all
    split
    · rfl
    · simp_all
  · exact .inr ⟨_, eq, sound⟩

end Fragment

section Encode

/-- The fields in the order of their offsets. -/
theorem encodeHeader_eq (h : Header) : encodeHeader h =
    putU32le kMagic ++ putU16le h.version ++ putU16le h.flags ++ putU32le h.sourceId ++
    putU32le h.messageLength ++ putU64le h.sequence ++ putU64le h.timestampNs ++
    putU32le h.fragmentOffset ++ putU16le h.fragmentIndex ++ putU16le h.fragmentCount ++
    putU16le h.fragmentLength ++ putU16le 0 := by
  simp only [encodeHeader, kHeaderSize, splice_empty, splice_fill, List.length_append, length_putU16le,
    length_putU32le, length_putU64le, Nat.reduceAdd, Nat.reduceSub, List.replicate_zero, List.append_nil]

@[simp] theorem length_encodeHeader (h : Header) : (encodeHeader h).length = kHeaderSize := by
  simp [encodeHeader_eq, kHeaderSize]

theorem headerOf_encode (h : Header) (payload : Bytes) : headerOf (encodeHeader h ++ payload) = h := by
  have v := h.version.toNat_lt
  have fl := h.flags.toNat_lt
  have id := h.sourceId.toNat_lt
  have ml := h.messageLength.toNat_lt
  have sq := h.sequence.toNat_lt
  have ts := h.timestampNs.toNat_lt
  have fo := h.fragmentOffset.toNat_lt
  have fi := h.fragmentIndex.toNat_lt
  have fc := h.fragmentCount.toNat_lt
  have fn := h.fragmentLength.toNat_lt
  simp only [headerOf, encodeHeader_eq, putU16le_eq, putU32le_eq, putU64le_eq, List.append_assoc]
  simp (disch := simp; try omega) only [field_append_right, length_toBytes, Nat.reduceSub, Nat.sub_self, field_toBytes,
    UInt16.ofNat_toNat, UInt32.ofNat_toNat, UInt64.ofNat_toNat]

theorem magic_encode (h : Header) (payload : Bytes) :
    UInt32.ofNat (field (encodeHeader h ++ payload) 0 4) = kMagic := by
  simp only [encodeHeader_eq, putU32le_eq, List.append_assoc]
  rw [field_toBytes (by decide), UInt32.ofNat_toNat]

theorem version_encode (h : Header) (payload : Bytes) :
    UInt16.ofNat (field (encodeHeader h ++ payload) 4 2) = h.version := by
  have same := congrArg Header.version (headerOf_encode h payload)
  simpa only [headerOf] using same

/-- An encoded valid header followed by its payload is accepted unchanged. -/
theorem parse_encode {h : Header} {payload : Bytes} (h₀ : Header) (version : h.version = kVersion) (valid : h.Valid)
    (len : payload.length = h.fragmentLength.toNat) :
    parseDatagram (encodeHeader h ++ payload) h₀ = .ok ⟨.none, h, some payload⟩ := by
  have total : (encodeHeader h ++ payload).length = kHeaderSize + h.fragmentLength.toNat := by
    rw [List.length_append, length_encodeHeader, len]
  have fields := checkFields_eq_none.2 ⟨valid, total⟩
  have rest : (encodeHeader h ++ payload).drop kHeaderSize = payload := by
    rw [← length_encodeHeader h, List.drop_left]
  rw [parseDatagram_eq h₀ (by omega), parsed, magic_encode, version_encode, headerOf_encode, fields, rest]
  simp [version]

/-- The fragment that an encoded valid header makes. -/
def Fragment.encode (h : Header) (payload : Bytes) (version : h.version = kVersion) (valid : h.Valid)
    (len : payload.length = h.fragmentLength.toNat) : Fragment where
  datagram := encodeHeader h ++ payload
  hdr := h
  payload := payload
  accepted := parse_encode {} version valid len

end Encode

end IpcRelay.Wire
