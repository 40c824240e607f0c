import IpcRelay.Common.WireFacts

/-!
# A message and its fragments

`Outgoing` is a message that fits the protocol limits, with the number of
payload bytes per datagram: what `Bridge::transmit` splits. Fragment `i` carries
the bytes from `i * chunk` on. The fragments tile the message (`covered`), none
of their fields is cut off by the width it is stored in (`header_toNat`), and
the receiver accepts every one of them (`Outgoing.fragment`).
-/

namespace IpcRelay

open Wire Overlay

/-- A message with its place in the stream of its source, short enough to be sent. -/
@[ext] structure Outgoing where
  sourceId : UInt32
  sequence : UInt64
  timestampNs : UInt64
  /-- The flags of the caller. -/
  flags : UInt16
  data : Bytes
  /-- Payload bytes per datagram. -/
  chunk : Nat
  chunkPos : 0 < chunk
  chunkSmall : chunk + kHeaderSize ≤ kMaxUdpPayload
  short : data.length ≤ kMaxMessageLength
  few : fragmentCountFor data.length chunk ≤ 0xFFFF

/-- The number of fragments in the program's 64-bit arithmetic is the rounded quotient. -/
theorem fragmentCountFor_eq {n chunk : Nat} (pos : 0 < chunk) (small : chunk + kHeaderSize ≤ kMaxUdpPayload)
    (short : n ≤ kMaxMessageLength) : fragmentCountFor n chunk = max 1 ((n + chunk - 1) / chunk) := by
  have hsmall : chunk + 44 ≤ 65507 := small
  have hshort : n ≤ 0xFFFFFFFF := short
  unfold fragmentCountFor
  rw [if_neg (by omega)]
  split
  · subst n
    rw [Nat.zero_add, Nat.div_eq_of_lt (by omega)]
    rfl
  · rw [Nat.mod_eq_of_lt (by omega), Nat.max_eq_right]
    exact (Nat.le_div_iff_mul_le pos).2 (by omega)

namespace Outgoing

def count (m : Outgoing) : Nat := fragmentCountFor m.data.length m.chunk

/-- The flags on the wire. -/
def wireFlags (m : Outgoing) : UInt16 := if m.count > 1 then m.flags ||| kFlagFragmented else m.flags

/-- The header fields that all fragments share. -/
def base (m : Outgoing) : Header where
  flags := m.wireFlags
  sourceId := m.sourceId
  messageLength := UInt32.ofNat m.data.length
  sequence := m.sequence
  timestampNs := m.timestampNs
  fragmentCount := UInt16.ofNat m.count

def offset (m : Outgoing) (i : Nat) : Nat := i * m.chunk

def length (m : Outgoing) (i : Nat) : Nat := min (m.data.length - m.offset i) m.chunk

def header (m : Outgoing) (i : Nat) : Header :=
  { m.base with
    fragmentIndex := UInt16.ofNat i
    fragmentOffset := UInt32.ofNat (m.offset i)
    fragmentLength := UInt16.ofNat (m.length i) }

def payload (m : Outgoing) (i : Nat) : Bytes := (m.data.drop (m.offset i)).take (m.length i)

def datagram (m : Outgoing) (i : Nat) : Bytes := encodeHeader (m.header i) ++ m.payload i

/-- Everything that is sent when no send fails. -/
def datagrams (m : Outgoing) : List Bytes := (List.range m.count).map m.datagram

section Tiling

variable (m : Outgoing)

theorem count_eq : m.count = max 1 ((m.data.length + m.chunk - 1) / m.chunk) :=
  fragmentCountFor_eq m.chunkPos m.chunkSmall m.short

theorem count_pos : 0 < m.count := by
  rw [count_eq]; omega

/-- The fragments reach over the whole message and the last one starts within it. -/
theorem count_bounds : m.data.length ≤ m.count * m.chunk ∧ (m.count - 1) * m.chunk ≤ m.data.length := by
  have pos := m.chunkPos
  have split := Nat.div_add_mod (m.data.length + m.chunk - 1) m.chunk
  have rest := Nat.mod_lt (m.data.length + m.chunk - 1) pos
  rw [count_eq]
  rcases Nat.eq_zero_or_pos ((m.data.length + m.chunk - 1) / m.chunk) with zero | positive
  · rw [zero] at split ⊢
    simp only [Nat.mul_zero, Nat.zero_add] at split
    simp
    omega
  · rw [Nat.max_eq_right positive]
    generalize (m.data.length + m.chunk - 1) / m.chunk = q at *
    obtain ⟨p, rfl⟩ : ∃ p, q = p + 1 := ⟨q - 1, by omega⟩
    rw [Nat.mul_succ, Nat.mul_comm m.chunk p] at split
    rw [Nat.add_sub_cancel, Nat.succ_mul]
    omega

variable {m} {i : Nat}

theorem offset_le (hi : i < m.count) : m.offset i ≤ m.data.length := by
  have bounds := m.count_bounds
  have le : i * m.chunk ≤ (m.count - 1) * m.chunk := Nat.mul_le_mul_right _ (by omega)
  exact le.trans bounds.2

/-- All fragments but the last one are full. -/
theorem length_inner (hi : i + 1 < m.count) : m.length i = m.chunk := by
  have next := offset_le hi
  simp only [length, offset, Nat.succ_mul] at *
  omega

theorem offset_succ (hi : i + 1 < m.count) : m.offset i + m.length i = m.offset (i + 1) := by
  rw [length_inner hi, offset, offset, Nat.succ_mul]

/-- The last fragment ends where the message ends. -/
theorem end_last (hi : i + 1 = m.count) : m.offset i + m.length i = m.data.length := by
  have le := offset_le (show i < m.count by omega)
  have bounds := m.count_bounds
  rw [← hi, Nat.succ_mul] at bounds
  simp only [length, offset] at *
  omega

theorem end_le (hi : i < m.count) : m.offset i + m.length i ≤ m.data.length := by
  have le := offset_le hi
  unfold length
  omega

theorem payload_length (hi : i < m.count) : (m.payload i).length = m.length i := by
  have le := end_le hi
  rw [payload, List.length_take, List.length_drop]
  omega

/-- Every byte of the message is in a fragment. -/
theorem covered {p : Nat} (hp : p < m.data.length) :
    ∃ i, i < m.count ∧ m.offset i ≤ p ∧ p < m.offset i + m.length i := by
  have pos := m.chunkPos
  have split := Nat.div_add_mod p m.chunk
  have rest := Nat.mod_lt p pos
  have bounds := m.count_bounds
  refine ⟨p / m.chunk, ?_, ?_, ?_⟩
  · exact (Nat.div_lt_iff_lt_mul pos).2 (by omega)
  · rw [offset, Nat.mul_comm]; omega
  · rw [length, offset, Nat.mul_comm]; omega

end Tiling

section Fields

variable {m : Outgoing} {i : Nat}

/-- No field of a fragment header is cut off. -/
theorem header_toNat (hi : i < m.count) :
    (m.header i).messageLength.toNat = m.data.length ∧ (m.header i).fragmentOffset.toNat = m.offset i ∧
      (m.header i).fragmentIndex.toNat = i ∧ (m.header i).fragmentCount.toNat = m.count ∧
      (m.header i).fragmentLength.toNat = m.length i := by
  have short : m.data.length ≤ 0xFFFFFFFF := m.short
  have few : m.count ≤ 0xFFFF := m.few
  have small : m.chunk + 44 ≤ 65507 := m.chunkSmall
  have le := offset_le hi
  have len : m.length i ≤ m.chunk := Nat.min_le_right _ _
  refine ⟨?_, ?_, ?_, ?_, ?_⟩
  · exact UInt32.toNat_ofNat_of_lt' (show _ < 2 ^ 32 by omega)
  · exact UInt32.toNat_ofNat_of_lt' (show _ < 2 ^ 32 by omega)
  · exact UInt16.toNat_ofNat_of_lt' (show _ < 2 ^ 16 by omega)
  · exact UInt16.toNat_ofNat_of_lt' (show _ < 2 ^ 16 by omega)
  · exact UInt16.toNat_ofNat_of_lt' (show _ < 2 ^ 16 by omega)

theorem fragmentCount_eq_one : (m.header i).fragmentCount = 1 ↔ m.count = 1 := by
  have few : m.count ≤ 0xFFFF := m.few
  have read : (UInt16.ofNat m.count).toNat = m.count := UInt16.toNat_ofNat_of_lt' (show _ < 2 ^ 16 by omega)
  show UInt16.ofNat m.count = 1 ↔ _
  rw [← UInt16.toNat_inj, read]
  rfl

theorem flagged (flags : UInt16) : (flags ||| kFlagFragmented) &&& kFlagFragmented ≠ 0 := by
  intro h
  have := congrArg UInt16.toNat h
  rw [UInt16.toNat_and, UInt16.toNat_or, Nat.and_or_distrib_right] at this
  have bit : flags.toNat &&& 1 ≤ 1 := Nat.and_le_right
  have : (flags.toNat &&& 1) ||| 1 = 0 := this
  rw [Nat.or_eq_zero_iff] at this
  omega

/-- The receiver's rules hold for every fragment of a message of several. -/
theorem header_valid (several : 1 < m.count) (hi : i < m.count) : (m.header i).Valid := by
  obtain ⟨len, off, index, count, flen⟩ := header_toNat hi
  have ends := end_le hi
  have notOne : (m.header i).fragmentCount ≠ 1 := fun h => by
    have := fragmentCount_eq_one.1 h; omega
  constructor
  · omega
  · omega
  · omega
  · exact fun one => absurd one notOne
  · refine iff_of_false ?_ notOne
    show m.wireFlags &&& _ ≠ 0
    rw [wireFlags, if_pos several]
    exact flagged m.flags
  · intro _ last
    rw [off, flen, len]
    exact end_last (by omega)
  · intro _ inner zero
    have full := length_inner (show i + 1 < m.count by omega)
    have pos := m.chunkPos
    rw [zero] at flen
    have : (0 : UInt16).toNat = 0 := rfl
    omega

/-- And for the only fragment of a message, unless the caller set the flag itself. -/
theorem header_valid_whole (whole : m.count = 1) (plain : m.flags &&& kFlagFragmented = 0) : (m.header 0).Valid := by
  have hi : 0 < m.count := by omega
  obtain ⟨len, off, index, count, flen⟩ := header_toNat hi
  have one := fragmentCount_eq_one (i := 0).2 whole
  have start : m.offset 0 = 0 := Nat.zero_mul _
  have all := end_last (show 0 + 1 = m.count by omega)
  constructor
  · omega
  · omega
  · omega
  · intro _
    refine ⟨UInt32.toNat_inj.1 ?_, ?_⟩
    · rw [off, start, UInt32.toNat_zero]
    · omega
  · refine iff_of_true ?_ one
    show m.wireFlags &&& _ = 0
    rw [wireFlags, if_neg (by omega)]
    exact plain
  · exact fun several => absurd one several
  · exact fun several => absurd one several

/-- The receiver accepts every datagram of the message and reads what was put in. -/
theorem parse_datagram (plain : m.flags &&& kFlagFragmented = 0) (hi : i < m.count) (h₀ : Header) :
    parseDatagram (m.datagram i) h₀ = .ok ⟨.none, m.header i, some (m.payload i)⟩ := by
  have valid : (m.header i).Valid := by
    by_cases several : 1 < m.count
    · exact header_valid several hi
    · obtain rfl : i = 0 := by omega
      exact header_valid_whole (by omega) plain
  apply parse_encode h₀ rfl valid
  rw [payload_length hi, (header_toNat hi).2.2.2.2]

/-- A fragment of a message of several, as the receiver accepts it. -/
def fragment (m : Outgoing) (several : 1 < m.count) (i : Nat) (hi : i < m.count) : Fragment :=
  .encode (m.header i) (m.payload i) rfl (header_valid several hi)
    (by rw [payload_length hi, (header_toNat hi).2.2.2.2])

/-- What the receiver reads in an accepted datagram of the message. -/
theorem of_datagram {f : Fragment} (h : f.datagram = m.datagram i) : f.hdr = m.header i ∧ f.payload = m.payload i := by
  rw [f.hdr_eq, f.payload_eq, h, datagram, headerOf_encode]
  refine ⟨rfl, ?_⟩
  rw [← length_encodeHeader (m.header i), List.drop_left]

end Fields

end Outgoing

end IpcRelay
