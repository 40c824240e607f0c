import IpcRelay.Bridge.Fragmentation
import IpcRelay.Receiver.Assembly

/-!
# A message on its way through the store

The bridge cuts a message by offsets, the receiver puts it together by offsets
and counts indices. `Own` fragments are those of one `Outgoing` message; an
entry that holds only such fragments, all of them, has the message in its
buffer (`assembled`), in whatever order they came.
-/

namespace IpcRelay

open Wire Overlay Reassembler

namespace Outgoing

/-- The association key of the message. -/
def key (m : Outgoing) : Key := ⟨m.sourceId, m.sequence⟩

/-- A fragment of the message. -/
def Own (m : Outgoing) (f : Fragment) : Prop := ∃ i < m.count, f.datagram = m.datagram i

variable {m : Outgoing} {f : Fragment}

theorem Own.key (own : m.Own f) : f.key = m.key := by
  obtain ⟨i, _, eq⟩ := own
  rw [Fragment.key, (of_datagram eq).1]
  rfl

theorem Own.several_iff (own : m.Own f) : f.Several ↔ 1 < m.count := by
  obtain ⟨i, _, eq⟩ := own
  have pos := m.count_pos
  rw [Fragment.Several, (of_datagram eq).1, ne_eq, fragmentCount_eq_one]
  omega

/-- An accepted fragment shows whether there are several. -/
theorem Own.flagged_iff (own : m.Own f) : m.wireFlags &&& kFlagFragmented ≠ 0 ↔ 1 < m.count := by
  rw [← own.several_iff, Fragment.Several, ne_eq, ne_eq, ← f.valid.flag]
  obtain ⟨i, _, eq⟩ := own
  rw [(of_datagram eq).1]
  rfl

/-- The place of a fragment is told by its index. -/
theorem Own.at_index (own : m.Own f) :
    f.hdr.fragmentIndex.toNat < m.count ∧ f.hdr = m.header f.hdr.fragmentIndex.toNat ∧
      f.payload = m.payload f.hdr.fragmentIndex.toNat := by
  obtain ⟨i, hi, eq⟩ := own
  obtain ⟨hdr, payload⟩ := of_datagram eq
  have index : f.hdr.fragmentIndex.toNat = i := by rw [hdr]; exact (header_toNat hi).2.2.1
  rw [index]
  exact ⟨hi, hdr, payload⟩

theorem Own.datagram_eq (own : m.Own f) : f.datagram = m.datagram f.hdr.fragmentIndex.toNat := by
  obtain ⟨i, hi, eq⟩ := own
  rw [(of_datagram eq).1, (header_toNat hi).2.2.1]
  exact eq

theorem own_iff_mem : m.Own f ↔ f.datagram ∈ m.datagrams := by
  simp [Own, datagrams, eq_comm]

theorem Own.count (own : m.Own f) : f.hdr.fragmentCount.toNat = m.count := by
  obtain ⟨i, hi, eq⟩ := own
  rw [(of_datagram eq).1]
  exact (header_toNat hi).2.2.2.1

theorem Own.length (own : m.Own f) : f.hdr.messageLength.toNat = m.data.length := by
  obtain ⟨i, hi, eq⟩ := own
  rw [(of_datagram eq).1]
  exact (header_toNat hi).1

theorem Own.patch (own : m.Own f) :
    f.patch = ⟨m.offset f.hdr.fragmentIndex.toNat, m.payload f.hdr.fragmentIndex.toNat⟩ := by
  obtain ⟨hi, hdr, payload⟩ := own.at_index
  rw [Fragment.patch, payload]
  congr 1
  conv_lhs => rw [hdr]
  exact (header_toNat hi).2.1

/-- Two fragments of the message agree on everything that the store compares. -/
theorem Own.agree {g : Fragment} (own : m.Own f) (own' : m.Own g) :
    f.hdr.fragmentCount = g.hdr.fragmentCount ∧ f.hdr.messageLength = g.hdr.messageLength ∧
      f.hdr.timestampNs = g.hdr.timestampNs ∧ f.hdr.flags = g.hdr.flags := by
  obtain ⟨i, _, eq⟩ := own
  obtain ⟨j, _, eq'⟩ := own'
  rw [(of_datagram eq).1, (of_datagram eq').1]
  exact ⟨rfl, rfl, rfl, rfl⟩

/-- A fragment carries its part of the message. -/
theorem Own.agrees (own : m.Own f) : f.patch.Agrees m.data := by
  obtain ⟨hi, _, _⟩ := own.at_index
  rw [own.patch]
  intro j hj
  dsimp only at hj ⊢
  rw [payload_length hi] at hj
  rw [payload, List.getElem?_take_of_lt hj, List.getElem?_drop]

/-- The completed message that the receiver is to report. -/
def completed (m : Outgoing) : CompletedMessage where
  sourceId := m.sourceId
  sequence := m.sequence
  timestampNs := m.timestampNs
  flags := m.wireFlags
  data := m.data
  length := m.data.length

/-- An unfragmented message arrives as it was sent. -/
theorem Own.message (own : m.Own f) (single : ¬ f.Several) : f.message = m.completed := by
  have one : m.count = 1 := by
    have pos := m.count_pos
    rw [own.several_iff] at single
    omega
  obtain ⟨hi, hdr, payload⟩ := own.at_index
  rw [show f.hdr.fragmentIndex.toNat = 0 by omega] at hdr payload
  have whole : m.length 0 = m.data.length := by
    have := end_last (m := m) (i := 0) (by omega)
    simpa [offset] using this
  have data : m.payload 0 = m.data := by
    rw [Outgoing.payload, whole, offset, Nat.zero_mul, List.drop_zero, List.take_length]
  have length : f.hdr.fragmentLength.toNat = m.data.length := by
    rw [hdr, ← whole]; exact (header_toNat (by omega)).2.2.2.2
  rw [Fragment.message, completed, payload, data, length, hdr]
  rfl

/-- An entry that holds nothing but fragments of the message, all of them, is the message. -/
theorem assembled {e : Entry} {held : List Arrival} (holds : Holds m.key e held)
    (full : e.fragmentsReceived.toNat = e.fragmentCount.toNat) (own : ∀ a ∈ held, m.Own a.frag) :
    completedOf m.key e = m.completed := by
  obtain ⟨a, rest, hheld, _, stamp, flags⟩ := holds.first
  have ha : a ∈ held := by rw [hheld]; simp
  obtain ⟨_, hdr, _⟩ := (own a ha).at_index
  have count : e.fragmentCount.toNat = m.count := by rw [← (holds.same a ha).1]; exact (own a ha).count
  have length : e.messageLength.toNat = m.data.length := by rw [← (holds.same a ha).2]; exact (own a ha).length
  have buffer : e.buffer = m.data := by
    rw [holds.buffer, length]
    apply overlay_eq
    · exact List.length_replicate
    · intro p hp
      obtain ⟨b, hb, rfl⟩ := List.mem_map.1 hp
      rw [← (own b hb).length]
      exact b.frag.patch_fits
    · intro p hp
      obtain ⟨b, hb, rfl⟩ := List.mem_map.1 hp
      exact (own b hb).agrees
    · intro p hp
      -- the fragment that covers `p` was taken in, as every index was
      obtain ⟨i, hi, lo, up⟩ := covered hp
      have mem : i ∈ held.map Arrival.index := by
        rw [(holds.full full).mem_iff, count]; exact List.mem_range.2 hi
      obtain ⟨b, hb, index⟩ := List.mem_map.1 mem
      have index : b.frag.hdr.fragmentIndex.toNat = i := index
      refine ⟨b.patch, List.mem_map.2 ⟨b, hb, rfl⟩, ?_⟩
      rw [Arrival.patch, (own b hb).patch, index]
      exact ⟨lo, by rw [payload_length hi]; exact up⟩
  rw [completedOf, completed, buffer, stamp, flags, hdr]
  rfl

end Outgoing

end IpcRelay
