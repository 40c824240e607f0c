import IpcRelay.Bridge.BridgeConfig
import IpcRelay.Bridge.Fragmentation
import IpcRelay.Lib.Machine

/-!
# The bridge core (`bridge/bridge.hpp`, `bridge/bridge.cpp`)

`Bridge` is the bridge after a successful `init`, `transmit` the fragmentation
and transmission of one message. What the socket does with each datagram is an
argument of the call. `transmit_spec` is all that a caller needs: the sequence
counter of the source goes up by one, and whatever is emitted are fragments of
the one `Outgoing` message of the call.
-/

namespace IpcRelay

open Wire

structure BridgeSourceStats where
  messages : Nat := 0
  bytes : Nat := 0
  multipart : Nat := 0
  datagrams : Nat := 0
  fragmented : Nat := 0
  recvErrors : Nat := 0
  sendErrors : Nat := 0
  sendTimeouts : Nat := 0
  oversize : Nat := 0
  nextSequence : UInt64 := 0
  deriving DecidableEq, Repr

structure BridgeStats where
  datagramsSent : Nat := 0
  bytesSent : Nat := 0
  sendErrors : Nat := 0
  sendTimeouts : Nat := 0
  pollErrors : Nat := 0
  pollIterations : Nat := 0
  maxBatchHits : Nat := 0
  deriving DecidableEq, Repr

structure Bridge where
  cfg : BridgeConfig
  sourceStats : List BridgeSourceStats
  stats : BridgeStats := {}
  deriving DecidableEq, Repr

/-- The return value of `sender_.send`: a number of bytes, or an error, which is `EAGAIN` for a timeout. -/
inductive SendOutcome where
  | sent (bytes : Nat)
  | timeout
  | error
  deriving DecidableEq, Repr

namespace Bridge

/-- The bridge as `init` leaves it. -/
def start (cfg : BridgeConfig) : Bridge where
  cfg := cfg
  sourceStats := cfg.sources.map fun _ => {}

/-- The arguments of a call of `transmit`, and what becomes of the datagrams it sends. -/
structure Call where
  index : Nat
  data : Bytes
  flags : UInt16
  timestampNs : UInt64
  sends : Nat → SendOutcome

/-- The return value of `transmit` and the datagrams it put on the network. -/
structure Transmitted where
  ok : Bool
  datagrams : List Bytes
  deriving DecidableEq, Repr

/-- The loop of `transmit`, with `left` fragments to go, the next of them the `i`-th.
The offset is within the message, so the subtraction does not wrap. -/
def sendFragments (data : Bytes) (chunk : Nat) (sends : Nat → SendOutcome) :
    Nat → Nat → Nat → Header → BridgeSourceStats → BridgeStats →
      Exec (BridgeSourceStats × BridgeStats × Transmitted)
  | 0, _, _, _, st, stats => .ok (st, stats, ⟨true, []⟩)
  | left + 1, i, offset, h, st, stats => do
    let n := if data.length - offset < chunk then data.length - offset else chunk
    let h := { h with fragmentIndex := UInt16.ofNat i }
    let h := { h with fragmentOffset := UInt32.ofNat offset }
    let h := { h with fragmentLength := UInt16.ofNat n }
    let payload ← slice data offset n
    match sends i with
    | .timeout =>
      .ok ({ st with sendTimeouts := st.sendTimeouts + 1 }, { stats with sendTimeouts := stats.sendTimeouts + 1 },
        ⟨false, []⟩)
    | .error =>
      .ok ({ st with sendErrors := st.sendErrors + 1 }, { stats with sendErrors := stats.sendErrors + 1 }, ⟨false, []⟩)
    | .sent bytes =>
      let st := { st with datagrams := st.datagrams + 1 }
      let stats := { stats with datagramsSent := stats.datagramsSent + 1, bytesSent := stats.bytesSent + bytes }
      let (st, stats, out) ← sendFragments data chunk sends left (i + 1) (offset + n) h st stats
      .ok (st, stats, ⟨out.ok, (encodeHeader h ++ payload) :: out.datagrams⟩)

/-- `transmit`. -/
def transmit (b : Bridge) (c : Call) : Exec (Bridge × Transmitted) :=
  match b.cfg.sources[c.index]?, b.sourceStats[c.index]? with
  | some src, some st =>
    let len := c.data.length
    let st := { st with messages := st.messages + 1, bytes := st.bytes + len }
    let sequence := st.nextSequence
    let st := { st with nextSequence := st.nextSequence + 1 }
    let chunk := b.cfg.fragmentPayload.toNat
    let count := fragmentCountFor len chunk
    if len > kMaxMessageLength ∨ count > 0xFFFF then
      .ok ({ b with sourceStats := b.sourceStats.set c.index { st with oversize := st.oversize + 1 } }, ⟨false, []⟩)
    else do
      let st := if count > 1 then { st with fragmented := st.fragmented + 1 } else st
      let flags := if count > 1 then c.flags ||| kFlagFragmented else c.flags
      let h : Header :=
        { flags := flags, sourceId := src.id, messageLength := UInt32.ofNat len, sequence := sequence,
          timestampNs := c.timestampNs, fragmentCount := UInt16.ofNat count }
      let (st, stats, out) ← sendFragments c.data chunk c.sends count 0 0 h st b.stats
      .ok ({ b with sourceStats := b.sourceStats.set c.index st, stats := stats }, out)
  | _, _ => .error .outOfRange

/-- The sequence number that the next message of a source gets. -/
def nextSequence (b : Bridge) (index : Nat) : Option UInt64 := b.sourceStats[index]?.map BridgeSourceStats.nextSequence

/-- The call of `transmit` splits this message. -/
structure Splits (cfg : BridgeConfig) (src : BridgeSourceConfig) (sequence : UInt64) (c : Call) (m : Outgoing) :
    Prop where
  sourceId : m.sourceId = src.id
  sequence : m.sequence = sequence
  timestampNs : m.timestampNs = c.timestampNs
  flags : m.flags = c.flags
  data : m.data = c.data
  chunk : m.chunk = cfg.fragmentPayload.toNat

/-- The datagram goes out. -/
def isSent : SendOutcome → Bool
  | .sent _ => true
  | _ => false

/-- The message that the call splits, if it is within the protocol limits. -/
def Call.outgoing (cfg : BridgeConfig) (src : BridgeSourceConfig) (sequence : UInt64) (c : Call) : Option Outgoing :=
  if h : (0 < cfg.fragmentPayload.toNat ∧ cfg.fragmentPayload.toNat + kHeaderSize ≤ kMaxUdpPayload) ∧
      c.data.length ≤ kMaxMessageLength ∧ fragmentCountFor c.data.length cfg.fragmentPayload.toNat ≤ 0xFFFF then
    some
      { sourceId := src.id, sequence := sequence, timestampNs := c.timestampNs, flags := c.flags, data := c.data,
        chunk := cfg.fragmentPayload.toNat, chunkPos := h.1.1, chunkSmall := h.1.2, short := h.2.1, few := h.2.2 }
  else none

/-- What becomes of a message: its fragments up to the first one that is not sent. -/
def emitted (cfg : BridgeConfig) (src : BridgeSourceConfig) (sequence : UInt64) (c : Call) : Transmitted :=
  match c.outgoing cfg src sequence with
  | some m =>
    ⟨(List.range m.count).all fun i => isSent (c.sends i),
      ((List.range m.count).takeWhile fun i => isSent (c.sends i)).map m.datagram⟩
  | none => ⟨false, []⟩

theorem splits_of_outgoing {cfg : BridgeConfig} {src : BridgeSourceConfig} {sequence : UInt64} {c : Call} {m : Outgoing}
    (h : c.outgoing cfg src sequence = some m) : Splits cfg src sequence c m := by
  unfold Call.outgoing at h
  split at h
  · cases h
    exact ⟨rfl, rfl, rfl, rfl, rfl, rfl⟩
  · cases h

/-- The sent fragments are the first ones. -/
theorem takeWhile_range (sent : Nat → Bool) (n : Nat) :
    ∃ k ≤ n, (List.range n).takeWhile sent = List.range k := by
  have whole := List.takeWhile_prefix sent (l := List.range n)
  have le := whole.length_le
  rw [List.length_range] at le
  refine ⟨_, le, ?_⟩
  rw [List.prefix_iff_eq_take.1 whole, List.take_range, List.length_range]

section Loop

variable {m : Outgoing} {sends : Nat → SendOutcome}

/-- The loop emits the fragments from the `i`-th on, up to the first one whose send fails. -/
theorem sendFragments_eq (left : Nat) :
    ∀ (i offset : Nat) (h : Header) (st : BridgeSourceStats) (stats : BridgeStats), i + left = m.count →
      (0 < left → offset = m.offset i) →
      { h with fragmentIndex := 0, fragmentOffset := 0, fragmentLength := 0 } = m.base →
      ∃ st' stats', sendFragments m.data m.chunk sends left i offset h st stats =
          .ok (st', stats', ⟨(List.range' i left).all fun j => isSent (sends j),
            ((List.range' i left).takeWhile fun j => isSent (sends j)).map m.datagram⟩) ∧
        st'.nextSequence = st.nextSequence := by
  induction left with
  | zero =>
    intro i offset h st stats _ _ _
    exact ⟨st, stats, rfl, rfl⟩
  | succ left ih =>
    intro i offset h st stats total here same
    obtain rfl := here (Nat.succ_pos left)
    have hi : i < m.count := by omega
    have size : (if m.data.length - m.offset i < m.chunk then m.data.length - m.offset i else m.chunk) = m.length i := by
      unfold Outgoing.length; split <;> omega
    have read : slice m.data (m.offset i) (m.length i) = .ok (m.payload i) := if_pos (Outgoing.end_le hi)
    have hdr : { h with fragmentIndex := UInt16.ofNat i, fragmentOffset := UInt32.ofNat (m.offset i),
                        fragmentLength := UInt16.ofNat (m.length i) } = m.header i := by
      unfold Outgoing.header
      rw [← same]
    simp only [sendFragments, size, read, hdr, bind, Except.bind, List.range'_succ, List.all_cons, List.takeWhile_cons]
    cases hs : sends i with
    | timeout => exact ⟨_, _, rfl, rfl⟩
    | error => exact ⟨_, _, rfl, rfl⟩
    | sent bytes =>
      have next : 0 < left → m.offset i + m.length i = m.offset (i + 1) := fun _ => Outgoing.offset_succ (by omega)
      have base : { m.header i with fragmentIndex := 0, fragmentOffset := 0, fragmentLength := 0 } = m.base := rfl
      obtain ⟨st', stats', ran, seq⟩ :=
        ih (i + 1) (m.offset i + m.length i) (m.header i) { st with datagrams := st.datagrams + 1 }
          { stats with datagramsSent := stats.datagramsSent + 1, bytesSent := stats.bytesSent + bytes }
          (by omega) next base
      simp only [ran]
      exact ⟨_, _, rfl, seq⟩

end Loop

/-- Only a source of the bridge can be served. -/
theorem known_of_transmit {b b' : Bridge} {c : Call} {out : Transmitted} (ran : transmit b c = .ok (b', out)) :
    c.index < b.cfg.sources.length := by
  by_contra unknown
  rw [transmit, List.getElem?_eq_none (by omega)] at ran
  cases ran

/-- One call numbers the message and emits its fragments. -/
theorem transmit_eq {b : Bridge} {c : Call} {src : BridgeSourceConfig} {seq : UInt64}
    (payload : b.cfg.fragmentPayload.toNat + kHeaderSize ≤ kMaxUdpPayload) (pos : 0 < b.cfg.fragmentPayload.toNat)
    (hsrc : b.cfg.sources[c.index]? = some src) (hseq : b.nextSequence c.index = some seq) :
    ∃ b', transmit b c = .ok (b', emitted b.cfg src seq c) ∧ b'.cfg = b.cfg ∧
      ∀ j, b'.nextSequence j = if j = c.index then some (seq + 1) else b.nextSequence j := by
  obtain ⟨st, hst, rfl⟩ := Option.map_eq_some_iff.1 hseq
  have lt : c.index < b.sourceStats.length := (List.getElem?_eq_some_iff.1 hst).1
  -- the counter of this source is the only one that a new entry of `sourceStats` changes
  have numbers : ∀ (st' : BridgeSourceStats) (stats' : BridgeStats), st'.nextSequence = st.nextSequence + 1 →
      ∀ j, nextSequence { b with sourceStats := b.sourceStats.set c.index st', stats := stats' } j =
        if j = c.index then some (st.nextSequence + 1) else b.nextSequence j := by
    intro st' stats' h j
    simp only [nextSequence, List.getElem?_set]
    by_cases hj : j = c.index
    · subst hj; simp [lt, h]
    · simp [hj, Ne.symm hj]
  simp only [transmit, hsrc, hst]
  split
  next big =>
    have silent : c.outgoing b.cfg src st.nextSequence = none := dif_neg (by omega)
    let st' := { st with messages := st.messages + 1, bytes := st.bytes + c.data.length,
                         nextSequence := st.nextSequence + 1, oversize := st.oversize + 1 }
    refine ⟨{ b with sourceStats := b.sourceStats.set c.index st' }, ?_, rfl, numbers st' b.stats rfl⟩
    rw [emitted, silent]
  next small =>
    have fits : c.outgoing b.cfg src st.nextSequence = some _ := dif_pos ⟨⟨pos, payload⟩, by omega, by omega⟩
    generalize hm : Outgoing.mk src.id st.nextSequence c.timestampNs c.flags c.data _ _ _ _ _ = m at fits
    have count : fragmentCountFor c.data.length b.cfg.fragmentPayload.toNat = m.count := by rw [← hm]; rfl
    obtain ⟨st', stats', ran, seq'⟩ :=
      @sendFragments_eq m c.sends m.count 0 0 m.base
        (if m.count > 1 then
          { st with messages := st.messages + 1, bytes := st.bytes + c.data.length,
                    nextSequence := st.nextSequence + 1, fragmented := st.fragmented + 1 }
        else
          { st with messages := st.messages + 1, bytes := st.bytes + c.data.length,
                    nextSequence := st.nextSequence + 1 })
        b.stats (by omega) (fun _ => by simp [Outgoing.offset]) rfl
    have out : emitted b.cfg src st.nextSequence c = ⟨(List.range' 0 m.count).all fun j => isSent (c.sends j),
        ((List.range' 0 m.count).takeWhile fun j => isSent (c.sends j)).map m.datagram⟩ := by
      simp only [emitted, fits, List.range_eq_range']
    refine ⟨{ b with sourceStats := b.sourceStats.set c.index st', stats := stats' }, ?_, rfl, ?_⟩
    · rw [out]
      subst hm
      exact Machine.bind_ok.2 ⟨_, ran, rfl⟩
    · apply numbers
      rw [seq']
      split <;> rfl

/-- One call numbers the message, and what it emits are fragments of it. -/
theorem transmit_spec {b : Bridge} {c : Call} {src : BridgeSourceConfig} {seq : UInt64}
    (payload : b.cfg.fragmentPayload.toNat + kHeaderSize ≤ kMaxUdpPayload) (pos : 0 < b.cfg.fragmentPayload.toNat)
    (hsrc : b.cfg.sources[c.index]? = some src) (hseq : b.nextSequence c.index = some seq) :
    ∃ b' out, transmit b c = .ok (b', out) ∧ b'.cfg = b.cfg ∧
      (∀ j, b'.nextSequence j = if j = c.index then some (seq + 1) else b.nextSequence j) ∧
      (out.datagrams = [] ∨
        ∃ m, Splits b.cfg src seq c m ∧ ∃ n ≤ m.count, out.datagrams = (List.range n).map m.datagram) ∧
      (out.ok = true → ∃ m, Splits b.cfg src seq c m ∧ out.datagrams = m.datagrams) ∧
      (c.data.length ≤ kMaxMessageLength → fragmentCountFor c.data.length b.cfg.fragmentPayload.toNat ≤ 0xFFFF →
        (∀ j, ∃ bytes, c.sends j = .sent bytes) → out.ok = true) := by
  obtain ⟨b', ran, same, numbers⟩ := transmit_eq payload pos hsrc hseq
  refine ⟨b', _, ran, same, numbers, ?_, ?_, ?_⟩
  · cases out : c.outgoing b.cfg src seq with
    | none => exact .inl (by rw [emitted, out])
    | some m =>
      obtain ⟨n, le, sent⟩ := takeWhile_range (fun i => isSent (c.sends i)) m.count
      exact .inr ⟨m, splits_of_outgoing out, n, le, by rw [emitted, out]; exact congrArg _ sent⟩
  · intro ok
    cases out : c.outgoing b.cfg src seq with
    | none => rw [emitted, out] at ok; cases ok
    | some m =>
      rw [emitted, out] at ok
      have all : ∀ i ∈ List.range m.count, isSent (c.sends i) = true := List.all_eq_true.1 ok
      refine ⟨m, splits_of_outgoing out, ?_⟩
      rw [emitted, out]
      exact congrArg _ (List.takeWhile_eq_self_iff.2 all)
  · intro short few all
    have fits : c.outgoing b.cfg src seq = some _ := dif_pos ⟨⟨pos, payload⟩, short, few⟩
    rw [emitted, fits]
    apply List.all_eq_true.2
    intro i _
    obtain ⟨bytes, hs⟩ := all i
    rw [hs]
    rfl

section Law

/-- The fragments that a message needs: one for each started `capacity` bytes, and at least one. -/
def fragmentsNeeded (len capacity : Nat) : Nat := max 1 (len ⌈/⌉ capacity)

/-- The message is over one of the protocol limits. -/
def OverLimits (cfg : BridgeConfig) (len : Nat) : Prop :=
  len > 2 ^ 32 - 1 ∨ fragmentsNeeded len cfg.fragmentPayload.toNat > 65535

/-- The `i`-th datagram of a message: the receiver accepts it and reads the slice it
carries, with every number in its header the one that it was cut from. -/
structure IsFragment (cfg : BridgeConfig) (data : Bytes) (i : Nat) (d : Bytes) (h : Header) : Prop where
  fits : d.length ≤ cfg.maxDatagramSize.toNat
  accepted : ∀ h₀, parseDatagram d h₀ =
    .ok ⟨.none, h, some ((data.take (min ((i + 1) * cfg.fragmentPayload.toNat) data.length)).drop
      (i * cfg.fragmentPayload.toNat))⟩
  messageLength : h.messageLength.toNat = data.length
  fragmentOffset : h.fragmentOffset.toNat = i * cfg.fragmentPayload.toNat
  fragmentIndex : h.fragmentIndex.toNat = i
  fragmentCount : h.fragmentCount.toNat = fragmentsNeeded data.length cfg.fragmentPayload.toNat
  fragmentLength : h.fragmentLength.toNat =
    min ((i + 1) * cfg.fragmentPayload.toNat) data.length - i * cfg.fragmentPayload.toNat

variable {cfg : BridgeConfig} {b : Bridge} {c : Call} {m : Outgoing}

/-- Below the limit on the length the program's number of fragments is the exact one. -/
theorem fragmentCountFor_needed {n chunk : Nat} (pos : 0 < chunk) (small : chunk + kHeaderSize ≤ kMaxUdpPayload)
    (short : n ≤ kMaxMessageLength) : fragmentCountFor n chunk = fragmentsNeeded n chunk := by
  rw [fragmentCountFor_eq pos small short, fragmentsNeeded, Nat.ceilDiv_eq_add_pred_div]

/-- The checks of `transmit`, in which the sum may have wrapped, are the exact limits. -/
theorem overLimits_iff (pos : 0 < cfg.fragmentPayload.toNat)
    (small : cfg.fragmentPayload.toNat + kHeaderSize ≤ kMaxUdpPayload) (n : Nat) :
    (n > kMaxMessageLength ∨ fragmentCountFor n cfg.fragmentPayload.toNat > 0xFFFF) ↔ OverLimits cfg n := by
  by_cases long : n > kMaxMessageLength
  · exact iff_of_true (.inl long) (.inl long)
  · rw [fragmentCountFor_needed pos small (not_lt.1 long)]
    exact Iff.rfl

/-- A message over the limits is counted and nothing of it is sent. -/
theorem transmit_oversize {src : BridgeSourceConfig} {st : BridgeSourceStats} (hsrc : b.cfg.sources[c.index]? = some src)
    (hst : b.sourceStats[c.index]? = some st)
    (beyond : c.data.length > kMaxMessageLength ∨
      fragmentCountFor c.data.length b.cfg.fragmentPayload.toNat > 0xFFFF) :
    ∃ b', transmit b c = .ok (b', ⟨false, []⟩) ∧
      b'.sourceStats[c.index]?.map BridgeSourceStats.oversize = some (st.oversize + 1) := by
  have lt : c.index < b.sourceStats.length := (List.getElem?_eq_some_iff.1 hst).1
  let counted := { st with messages := st.messages + 1, bytes := st.bytes + c.data.length,
                           nextSequence := st.nextSequence + 1, oversize := st.oversize + 1 }
  refine ⟨{ b with sourceStats := b.sourceStats.set c.index counted }, ?_, ?_⟩
  · simp only [transmit, hsrc, hst]
    exact if_pos beyond
  · show Option.map _ (b.sourceStats.set c.index counted)[c.index]? = _
    rw [List.getElem?_set_self lt]
    rfl

/-- What `transmit` splits a message into are the fragments of the law. -/
theorem isFragment (chunk : m.chunk = cfg.fragmentPayload.toNat)
    (size : cfg.fragmentPayload.toNat + kHeaderSize = cfg.maxDatagramSize.toNat)
    (plain : m.flags &&& kFlagFragmented = 0) {i : Nat} (hi : i < m.count) :
    IsFragment cfg m.data i (m.datagram i) (m.header i) := by
  obtain ⟨len, off, index, count, flen⟩ := Outgoing.header_toNat hi
  have needed : m.count = fragmentsNeeded m.data.length m.chunk :=
    fragmentCountFor_needed m.chunkPos m.chunkSmall m.short
  have start := Outgoing.offset_le hi
  have stop : m.offset i + m.length i = min ((i + 1) * m.chunk) m.data.length := by
    simp only [Outgoing.length, Outgoing.offset, Nat.succ_mul] at *
    omega
  have slice : m.payload i = (m.data.take (min ((i + 1) * m.chunk) m.data.length)).drop (i * m.chunk) := by
    rw [← stop, List.drop_take, Outgoing.payload]
    show _ = List.take (m.offset i + m.length i - m.offset i) _
    rw [Nat.add_sub_cancel_left]
    rfl
  constructor
  · have le : m.length i ≤ m.chunk := Nat.min_le_right _ _
    rw [Outgoing.datagram, List.length_append, length_encodeHeader, Outgoing.payload_length hi]
    omega
  · intro h₀
    rw [Outgoing.parse_datagram plain hi, slice, chunk]
  · exact len
  · rw [off, Outgoing.offset, chunk]
  · exact index
  · rw [count, needed, chunk]
  · rw [flen, ← chunk, ← stop, Outgoing.offset, Nat.add_sub_cancel_left]

/-- A message within the limits, none of whose sends fails, goes out as its fragments. -/
theorem transmit_within {src : BridgeSourceConfig} {seq : UInt64}
    (size : b.cfg.fragmentPayload.toNat + kHeaderSize = b.cfg.maxDatagramSize.toNat)
    (pos : 0 < b.cfg.fragmentPayload.toNat) (small : b.cfg.fragmentPayload.toNat + kHeaderSize ≤ kMaxUdpPayload)
    (hsrc : b.cfg.sources[c.index]? = some src) (hseq : b.nextSequence c.index = some seq)
    (plain : c.flags &&& kFlagFragmented = 0) (within : ¬ OverLimits b.cfg c.data.length)
    (sent : ∀ i, isSent (c.sends i) = true) :
    ∃ b' out, transmit b c = .ok (b', out) ∧ out.ok = true ∧
      out.datagrams.length = fragmentsNeeded c.data.length b.cfg.fragmentPayload.toNat ∧
      ∀ i d, out.datagrams[i]? = some d → ∃ h, IsFragment b.cfg c.data i d h := by
  obtain ⟨b', ran, -, -⟩ := transmit_eq small pos hsrc hseq
  rw [← overLimits_iff pos small, not_or, not_lt, not_lt] at within
  have fits : c.outgoing b.cfg src seq = some _ := dif_pos ⟨⟨pos, small⟩, within⟩
  have splits := splits_of_outgoing fits
  generalize Outgoing.mk src.id seq c.timestampNs c.flags c.data _ _ _ _ _ = m at fits splits
  have all : (List.range m.count).takeWhile (fun i => isSent (c.sends i)) = List.range m.count :=
    List.takeWhile_eq_self_iff.2 fun i _ => sent i
  have out : emitted b.cfg src seq c = ⟨true, m.datagrams⟩ := by
    rw [emitted, fits]
    refine congrArg₂ Transmitted.mk ?_ ?_
    · exact List.all_eq_true.2 fun i _ => sent i
    · rw [all]
      rfl
  rw [out] at ran
  refine ⟨b', _, ran, rfl, ?_, ?_⟩
  · show ((List.range m.count).map m.datagram).length = _
    rw [List.length_map, List.length_range, ← splits.data, ← splits.chunk]
    exact fragmentCountFor_needed m.chunkPos m.chunkSmall m.short
  · intro i d hd
    have hd' : ((List.range m.count).map m.datagram)[i]? = some d := hd
    rw [List.getElem?_map] at hd'
    obtain ⟨j, hj, rfl⟩ := Option.map_eq_some_iff.1 hd'
    obtain ⟨lt, rfl⟩ := List.getElem?_eq_some_iff.1 hj
    rw [List.length_range] at lt
    rw [List.getElem_range, ← splits.data]
    exact ⟨_, isFragment splits.chunk size (by rw [splits.flags]; exact plain) lt⟩

/-- With an accepted configuration a datagram carries 1 to 65463 bytes of a message. A
message over the limits is dropped and counted; any other, of whatever length, goes
out as exactly the fragments it needs when no send fails. `flags` is what the callers pass. -/
theorem fragmentation_law (env : NetEnv) (file : ConfigFile) (cfg : BridgeConfig)
    (accepted : buildBridgeConfig env file = (cfg, [])) :
    (1 ≤ cfg.fragmentPayload.toNat ∧ cfg.fragmentPayload.toNat ≤ 65463) ∧
    ∀ (b : Bridge) (c : Call) (src : BridgeSourceConfig) (st : BridgeSourceStats), b.cfg = cfg →
      cfg.sources[c.index]? = some src → b.sourceStats[c.index]? = some st → (c.flags = 0 ∨ c.flags = kFlagMultipart) →
      (OverLimits cfg c.data.length →
        ∃ b', transmit b c = .ok (b', ⟨false, []⟩) ∧
          b'.sourceStats[c.index]?.map BridgeSourceStats.oversize = some (st.oversize + 1)) ∧
      (¬ OverLimits cfg c.data.length → (∀ i, isSent (c.sends i) = true) →
        ∃ b' out, transmit b c = .ok (b', out) ∧ out.ok = true ∧
          out.datagrams.length = fragmentsNeeded c.data.length cfg.fragmentPayload.toNat ∧
          ∀ i d, out.datagrams[i]? = some d → ∃ h, IsFragment cfg c.data i d h) := by
  have room := accepted_datagram_size accepted
  have size := accepted_payload accepted
  have header : kHeaderSize = 44 := rfl
  have udp : kMaxUdpPayload = 65507 := rfl
  have pos : 0 < cfg.fragmentPayload.toNat := by omega
  have small : cfg.fragmentPayload.toNat + kHeaderSize ≤ kMaxUdpPayload := by omega
  refine ⟨⟨pos, by omega⟩, ?_⟩
  rintro b c src st rfl hsrc hst flags
  refine ⟨fun beyond => transmit_oversize hsrc hst ((overLimits_iff pos small _).2 beyond), ?_⟩
  intro within sent
  have plain : c.flags &&& kFlagFragmented = 0 := by
    rcases flags with single | multipart
    · rw [single]; rfl
    · rw [multipart]; rfl
  have hseq : b.nextSequence c.index = some st.nextSequence := by
    rw [nextSequence, hst]; rfl
  exact transmit_within size pos small hsrc hseq plain within sent

/-- Three bytes in datagrams of two. -/
theorem fragmentation_law_lab :
    ∃ b' out, transmit (start labCfg) ⟨0, [1, 2, 3], kFlagMultipart, 5, fun _ => .sent 46⟩ = .ok (b', out) ∧
      out.ok = true ∧ out.datagrams.length = fragmentsNeeded 3 labCfg.fragmentPayload.toNat ∧
      ∀ i d, out.datagrams[i]? = some d → ∃ h, IsFragment labCfg [1, 2, 3] i d h := by
  obtain ⟨-, law⟩ := fragmentation_law labEnv labFile labCfg labFile_accepted
  obtain ⟨src, hsrc⟩ : ∃ src, labCfg.sources[0]? = some src := Option.isSome_iff_exists.1 (by decide +kernel)
  have hst : (start labCfg).sourceStats[0]? = some ({} : BridgeSourceStats) := by decide +kernel
  refine (law (start labCfg) _ src {} rfl hsrc hst (.inr rfl)).2 ?_ fun _ => rfl
  rw [OverLimits, fragmentsNeeded, Nat.ceilDiv_eq_add_pred_div]
  decide +kernel

end Law

end Bridge

end IpcRelay
