import IpcRelay.Receiver.ReceiverFacts

/-!
# Receivers that differ in counters only

No event reads the counters that it adds to. So two receivers that agree on
everything but the packet, byte, duplicate and malformed counters (`Alike`)
react alike to every event and stay so (`alike_run`): the counters of one may
be ahead, nothing else follows from it.
-/

namespace IpcRelay.Receiver

open Wire Capture Machine

/-- The block of a source without the counters that may be ahead. -/
def lasting (b : ReceiverSourceStats) : ReceiverSourceStats := { b with datagrams := 0, duplicates := 0, malformed := 0 }

/-- The global statistics without the counters that may be ahead, and without the blocks. -/
def lastingStats (st : ReceiverStats) : ReceiverStats :=
  { st with datagrams := 0, datagramBytes := 0, duplicates := 0, malformed := 0, malformedByReason := ∅, sources := ∅ }

/-- `y` is the block `x` with its packet, duplicate and malformed counters ahead or equal. -/
structure BlockGrown (x y : ReceiverSourceStats) : Prop where
  same : lasting y = lasting x
  datagrams : x.datagrams ≤ y.datagrams
  duplicates : x.duplicates ≤ y.duplicates
  malformed : x.malformed ≤ y.malformed

/-- The statistics `b` are `a` with the packet, byte, duplicate and malformed counters ahead or equal. -/
structure Grown (a b : ReceiverStats) : Prop where
  same : lastingStats b = lastingStats a
  datagrams : a.datagrams ≤ b.datagrams
  datagramBytes : a.datagramBytes ≤ b.datagramBytes
  duplicates : a.duplicates ≤ b.duplicates
  malformed : a.malformed ≤ b.malformed
  reasons : ∀ reason, KeyMap.get 0 a.malformedByReason reason ≤ KeyMap.get 0 b.malformedByReason reason
  blocks : ∀ k, BlockGrown (a.block k) (b.block k)

/-- Two receivers that agree on everything but counters, those of the second ahead or equal. -/
structure Alike (s t : Receiver) : Prop where
  same : t = { s with stats := t.stats }
  grown : Grown s.stats t.stats

section Grown

variable {a b c : ReceiverStats} {x y z : ReceiverSourceStats}

theorem BlockGrown.refl (x : ReceiverSourceStats) : BlockGrown x x := ⟨rfl, le_rfl, le_rfl, le_rfl⟩

theorem BlockGrown.trans (g : BlockGrown x y) (h : BlockGrown y z) : BlockGrown x z where
  same := h.same.trans g.same
  datagrams := g.datagrams.trans h.datagrams
  duplicates := g.duplicates.trans h.duplicates
  malformed := g.malformed.trans h.malformed

theorem Grown.refl (a : ReceiverStats) : Grown a a where
  same := rfl
  datagrams := le_rfl
  datagramBytes := le_rfl
  duplicates := le_rfl
  malformed := le_rfl
  reasons _ := le_rfl
  blocks _ := .refl _

theorem Grown.trans (g : Grown a b) (h : Grown b c) : Grown a c where
  same := h.same.trans g.same
  datagrams := g.datagrams.trans h.datagrams
  datagramBytes := g.datagramBytes.trans h.datagramBytes
  duplicates := g.duplicates.trans h.duplicates
  malformed := g.malformed.trans h.malformed
  reasons reason := (g.reasons reason).trans (h.reasons reason)
  blocks k := (g.blocks k).trans (h.blocks k)

/-- A change of the lasting part. -/
theorem Grown.update (g : Grown a b) (f : ReceiverStats → ReceiverStats)
    (same : ∀ st, lastingStats (f st) = lastingStats (f (lastingStats st)))
    (rest : ∀ st, (f st).datagrams = st.datagrams ∧ (f st).datagramBytes = st.datagramBytes ∧
      (f st).duplicates = st.duplicates ∧ (f st).malformed = st.malformed ∧
      (f st).malformedByReason = st.malformedByReason ∧ (f st).sources = st.sources) : Grown (f a) (f b) := by
  obtain ⟨a₁, a₂, a₃, a₄, a₅, a₆⟩ := rest a
  obtain ⟨b₁, b₂, b₃, b₄, b₅, b₆⟩ := rest b
  constructor
  · rw [same b, g.same, ← same a]
  · rw [a₁, b₁]; exact g.datagrams
  · rw [a₂, b₂]; exact g.datagramBytes
  · rw [a₃, b₃]; exact g.duplicates
  · rw [a₄, b₄]; exact g.malformed
  · intro reason
    rw [a₅, b₅]
    exact g.reasons reason
  · intro k
    have block : ∀ st, (f st).sources = st.sources → (f st).block k = st.block k := by
      intro st h
      unfold ReceiverStats.block
      rw [h]
    rw [block a a₆, block b b₆]
    exact g.blocks k

/-- A change of one block. -/
theorem Grown.source (g : Grown a b) (id : UInt32) {f : ReceiverSourceStats → ReceiverSourceStats}
    (grow : ∀ x y, BlockGrown x y → BlockGrown (f x) (f y)) : Grown (a.source id f) (b.source id f) where
  same := g.same
  datagrams := g.datagrams
  datagramBytes := g.datagramBytes
  duplicates := g.duplicates
  malformed := g.malformed
  reasons := g.reasons
  blocks k := by
    rw [block_source, block_source]
    split
    · exact grow _ _ (g.blocks id)
    · exact g.blocks k

/-- A block that is ahead. -/
theorem Grown.ahead (a : ReceiverStats) (id : UInt32) {f : ReceiverSourceStats → ReceiverSourceStats}
    (grow : ∀ x, BlockGrown x (f x)) : Grown a (a.source id f) where
  same := rfl
  datagrams := le_rfl
  datagramBytes := le_rfl
  duplicates := le_rfl
  malformed := le_rfl
  reasons _ := le_rfl
  blocks k := by
    rw [block_source]
    split
    next eq => rw [eq]; exact grow _
    next => exact .refl _

end Grown

section Operations

variable {s t : Receiver}

theorem Alike.refl (s : Receiver) : Alike s s := ⟨rfl, .refl _⟩

theorem Alike.trans {u : Receiver} (a : Alike s t) (b : Alike t u) : Alike s u where
  same := by rw [b.same, a.same]
  grown := a.grown.trans b.grown

/-- The operations below treat the two receivers alike: it is enough to see it where
the second one is the first with other statistics. -/
theorem Alike.elim {P : Receiver → Prop} (a : Alike s t)
    (h : ∀ st, Grown s.stats st → P { s with stats := st }) : P t := by
  rw [a.same]
  exact h t.stats a.grown

theorem Alike.refreshCaptureStats (a : Alike s t) : Alike s.refreshCaptureStats t.refreshCaptureStats := by
  apply a.elim
  intro st g
  refine ⟨rfl, g.update (fun st => { st with
    recordingEnabled := s.recording, captureOpen := s.writer.isOpen, captureFailed := s.writer.failed,
    captureError := s.writer.lastError, recordsWritten := s.writer.recordsWritten,
    recordBytes := s.writer.bytesWritten, reassemblyPending := s.reassembler.pending }) (fun _ => rfl) fun _ => ?_⟩
  exact ⟨rfl, rfl, rfl, rfl, rfl, rfl⟩

theorem Alike.countWriteError (a : Alike s t) : Alike s.countWriteError t.countWriteError := by
  apply a.elim
  intro st g
  refine ⟨rfl, g.update (fun st => { st with writeErrors := st.writeErrors + 1 }) (fun _ => rfl) fun _ => ?_⟩
  exact ⟨rfl, rfl, rfl, rfl, rfl, rfl⟩

/-- The same new writer and recording flag. -/
theorem Alike.record (a : Alike s t) (w : CaptureWriter) (recording : Bool) :
    Alike { s with writer := w, recording := recording } { t with writer := w, recording := recording } := by
  apply a.elim
  intro st g
  exact ⟨rfl, g⟩

theorem Alike.setRecording (a : Alike s t) (enabled : Bool) (io : Stdio) :
    Alike (s.setRecording enabled io).1 (t.setRecording enabled io).1 ∧
      (s.setRecording enabled io).2 = (t.setRecording enabled io).2 := by
  obtain ⟨same, g⟩ := a
  have a : Alike s { s with stats := t.stats } := ⟨rfl, g⟩
  rw [same]
  unfold Receiver.setRecording
  dsimp only
  split
  · split
    · exact ⟨a, rfl⟩
    · split
      · split
        · exact ⟨(a.record _ _).refreshCaptureStats, rfl⟩
        · exact ⟨(a.record _ _).refreshCaptureStats, rfl⟩
      · exact ⟨(a.record _ _).refreshCaptureStats, rfl⟩
  · refine ⟨?_, rfl⟩
    split
    · split
      · exact (((a.record _ _).countWriteError).record _ _).refreshCaptureStats
      · exact ((a.record _ _).record _ _).refreshCaptureStats
    · exact (a.record _ _).refreshCaptureStats

theorem Alike.handleCommand (a : Alike s t) (raw : Bytes) (io : Stdio) :
    Alike (s.handleCommand raw io).1 (t.handleCommand raw io).1 ∧
      (s.handleCommand raw io).2 = (t.handleCommand raw io).2 := by
  obtain ⟨same, g⟩ := a
  have counted : Alike { s with stats := { s.stats with commands := s.stats.commands + 1 } }
      { s with stats := { t.stats with commands := t.stats.commands + 1 } } :=
    ⟨rfl, g.update (fun st => { st with commands := st.commands + 1 }) (fun _ => rfl)
      fun _ => ⟨rfl, rfl, rfl, rfl, rfl, rfl⟩⟩
  rw [same]
  unfold Receiver.handleCommand
  dsimp only
  split
  · exact counted.setRecording true io
  split
  · exact counted.setRecording false io
  split
  · exact counted.setRecording _ io
  split
  · split
    · split
      · exact ⟨(counted.record _ _).countWriteError.refreshCaptureStats, rfl⟩
      · exact ⟨counted.record _ _, rfl⟩
    · exact ⟨counted, rfl⟩
  split
  · exact ⟨counted, rfl⟩
  · exact ⟨counted, rfl⟩

theorem Alike.init (a : Alike s t) (io : Stdio) :
    Alike (s.init io).1 (t.init io).1 ∧ (s.init io).2 = (t.init io).2 := by
  have cfg : t.cfg = s.cfg := by rw [a.same]
  unfold Receiver.init
  rw [cfg]
  split
  · exact a.setRecording true io
  · exact ⟨a, rfl⟩

theorem Alike.pollFlush (a : Alike s t) (io : Stdio) :
    Alike (s.pollFlush io).1 (t.pollFlush io).1 ∧ (s.pollFlush io).2 = (t.pollFlush io).2 := by
  obtain ⟨same, g⟩ := a
  have a : Alike s { s with stats := t.stats } := ⟨rfl, g⟩
  rw [same]
  unfold Receiver.pollFlush
  dsimp only
  split
  · split
    · exact ⟨(a.record _ _).countWriteError, rfl⟩
    · exact ⟨a.record _ _, rfl⟩
  · exact ⟨a, rfl⟩

theorem Alike.shutdown (a : Alike s t) (io : Stdio) :
    Alike (s.shutdown io).1 (t.shutdown io).1 ∧ (s.shutdown io).2 = (t.shutdown io).2 := by
  obtain ⟨same, g⟩ := a
  have a : Alike s { s with stats := t.stats } := ⟨rfl, g⟩
  rw [same]
  unfold Receiver.shutdown
  dsimp only
  split
  · split
    · exact ⟨(a.record _ _).countWriteError, rfl⟩
    · exact ⟨a.record _ _, rfl⟩
  · exact ⟨a, rfl⟩

theorem Alike.countDatagram (a : Alike s t) (id : UInt32) (len : Nat) :
    Alike (s.countDatagram id len) (t.countDatagram id len) := by
  apply a.elim
  intro st g
  have one : Grown { s.stats with datagrams := s.stats.datagrams + 1, datagramBytes := s.stats.datagramBytes + len }
      { st with datagrams := st.datagrams + 1, datagramBytes := st.datagramBytes + len } :=
    ⟨g.same, Nat.add_le_add_right g.datagrams 1, Nat.add_le_add_right g.datagramBytes len, g.duplicates, g.malformed,
      g.reasons, g.blocks⟩
  refine ⟨rfl, one.source id ?_⟩
  intro x y h
  exact ⟨h.same, Nat.add_le_add_right h.datagrams 1, h.duplicates, h.malformed⟩

theorem Alike.countDuplicate (a : Alike s t) (id : UInt32) : Alike (s.countDuplicate id) (t.countDuplicate id) := by
  apply a.elim
  intro st g
  have one : Grown { s.stats with duplicates := s.stats.duplicates + 1 } { st with duplicates := st.duplicates + 1 } :=
    ⟨g.same, g.datagrams, g.datagramBytes, Nat.add_le_add_right g.duplicates 1, g.malformed, g.reasons, g.blocks⟩
  refine ⟨rfl, one.source id ?_⟩
  intro x y h
  exact ⟨h.same, h.datagrams, Nat.add_le_add_right h.duplicates 1, h.malformed⟩

theorem Alike.noteMalformed (a : Alike s t) (reason : Bytes) (source : Option UInt32) :
    Alike (s.noteMalformed reason source) (t.noteMalformed reason source) := by
  apply a.elim
  intro st g
  have one : Grown
      { s.stats with malformed := s.stats.malformed + 1,
                     malformedByReason := KeyMap.update 0 s.stats.malformedByReason reason (· + 1) }
      { st with malformed := st.malformed + 1,
                malformedByReason := KeyMap.update 0 st.malformedByReason reason (· + 1) } := by
    refine ⟨g.same, g.datagrams, g.datagramBytes, g.duplicates, Nat.add_le_add_right g.malformed 1, ?_, g.blocks⟩
    intro other
    dsimp only
    rw [KeyMap.get_update, KeyMap.get_update]
    split
    · exact Nat.add_le_add_right (g.reasons reason) 1
    · exact g.reasons other
  cases source with
  | none => exact ⟨rfl, one⟩
  | some id =>
    refine ⟨rfl, one.source id ?_⟩
    intro x y h
    exact ⟨h.same, h.datagrams, h.duplicates, Nat.add_le_add_right h.malformed 1⟩

/-- A change of one block that touches none of the counters that may be ahead. -/
theorem Alike.source (a : Alike s t) (id : UInt32) (f : ReceiverSourceStats → ReceiverSourceStats)
    (same : ∀ b, lasting (f b) = f (lasting b))
    (rest : ∀ b, (f b).datagrams = b.datagrams ∧ (f b).duplicates = b.duplicates ∧ (f b).malformed = b.malformed) :
    Alike { s with stats := s.stats.source id f } { t with stats := t.stats.source id f } := by
  apply a.elim
  intro st g
  refine ⟨rfl, g.source id ?_⟩
  intro x y h
  obtain ⟨x₁, x₂, x₃⟩ := rest x
  obtain ⟨y₁, y₂, y₃⟩ := rest y
  exact ⟨by rw [same, same, h.same], by rw [x₁, y₁]; exact h.datagrams, by rw [x₂, y₂]; exact h.duplicates,
    by rw [x₃, y₃]; exact h.malformed⟩

theorem Alike.noteSequence (a : Alike s t) (id : UInt32) (seq : Option (SequenceTracker.Outcome × UInt64)) :
    Alike (s.noteSequence id seq) (t.noteSequence id seq) := by
  rcases seq with _ | ⟨outcome, missing⟩
  · exact a
  cases outcome with
  | first => exact a
  | inOrder => exact a
  | gap => exact a.source id _ (fun _ => rfl) fun _ => ⟨rfl, rfl, rfl⟩
  | outOfOrder => exact a.source id _ (fun _ => rfl) fun _ => ⟨rfl, rfl, rfl⟩

theorem Alike.advance (a : Alike s t) (r : Reassembler) (q : SequenceTracker) :
    Alike (s.advance r q) (t.advance r q) := by
  apply a.elim
  intro st g
  exact ⟨rfl, g⟩

theorem Alike.noteExpired (a : Alike s t) (e : ExpiredMessage) : Alike (s.noteExpired e) (t.noteExpired e) := by
  apply a.elim
  intro st g
  have one := g.update (fun st => { st with incomplete := st.incomplete + 1 }) (fun _ => rfl)
    fun _ => ⟨rfl, rfl, rfl, rfl, rfl, rfl⟩
  refine ⟨rfl, one.source e.sourceId ?_⟩
  intro x y h
  exact ⟨congrArg (fun b : ReceiverSourceStats => { b with incomplete := b.incomplete + 1 }) h.same, h.datagrams,
    h.duplicates, h.malformed⟩

theorem Alike.countMessage (a : Alike s t) (m : CompletedMessage) : Alike (s.countMessage m) (t.countMessage m) := by
  apply a.elim
  intro st g
  have one := g.update
    (fun st => { st with messages := st.messages + 1, payloadBytes := st.payloadBytes + m.length }) (fun _ => rfl)
    fun _ => ⟨rfl, rfl, rfl, rfl, rfl, rfl⟩
  refine ⟨rfl, one.source m.sourceId ?_⟩
  intro x y h
  exact ⟨congrArg (fun b : ReceiverSourceStats => { b with
    messages := b.messages + 1, payloadBytes := b.payloadBytes + m.length, lastSequence := m.sequence,
    lastTimestampNs := m.timestampNs }) h.same, h.datagrams, h.duplicates, h.malformed⟩

theorem Alike.onComplete (a : Alike s t) (m : CompletedMessage) (io : Stdio) {s' : Receiver}
    (done : s.onComplete m io = .ok s') : ∃ t', t.onComplete m io = .ok t' ∧ Alike s' t' := by
  obtain ⟨same, g⟩ := a.countMessage m
  have a : Alike (s.countMessage m) { s.countMessage m with stats := (t.countMessage m).stats } := ⟨rfl, g⟩
  unfold Receiver.onComplete at done ⊢
  rw [same]
  dsimp only at done ⊢
  split at done
  next off =>
    cases done
    rw [if_pos off]
    exact ⟨_, rfl, rfl, g.update (fun st => { st with recordsSkipped := st.recordsSkipped + 1 }) (fun _ => rfl)
      fun _ => ⟨rfl, rfl, rfl, rfl, rfl, rfl⟩⟩
  next on =>
    rw [if_neg on]
    obtain ⟨⟨w, ok⟩, written, done⟩ := bind_ok.1 done
    cases ok with
    | false =>
      cases done
      exact ⟨_, bind_ok.2 ⟨_, written, rfl⟩, (a.record _ _).countWriteError.refreshCaptureStats⟩
    | true =>
      cases done
      have recorded := (a.record w (s.countMessage m).recording).source m.sourceId
        (fun ss => { ss with recordsWritten := ss.recordsWritten + 1 }) (fun _ => rfl) fun _ => ⟨rfl, rfl, rfl⟩
      exact ⟨_, bind_ok.2 ⟨_, written, rfl⟩, recorded⟩

theorem Alike.settle (a : Alike s t) (hdr : Header) (o : Reassembler.AddOutcome) (io : Stdio) {s' : Receiver}
    (done : s.settle hdr o io = .ok s') : ∃ t', t.settle hdr o io = .ok t' ∧ Alike s' t' := by
  obtain ⟨result, m, new⟩ := o
  cases result with
  | complete => exact a.onComplete m io done
  | incomplete => cases done; exact ⟨_, rfl, a⟩
  | duplicate => cases done; exact ⟨_, rfl, a.countDuplicate _⟩
  | malformed => cases done; exact ⟨_, rfl, a.noteMalformed _ _⟩

theorem alike_countDatagram (s : Receiver) (id : UInt32) (len : Nat) : Alike s (s.countDatagram id len) := by
  refine ⟨rfl, .trans (b := { s.stats with datagrams := s.stats.datagrams + 1,
                                           datagramBytes := s.stats.datagramBytes + len }) ?_ (.ahead _ _ ?_)⟩
  · exact ⟨rfl, Nat.le_succ _, Nat.le_add_right _ _, le_rfl, le_rfl, fun _ => le_rfl, fun _ => .refl _⟩
  · exact fun x => ⟨rfl, Nat.le_succ _, le_rfl, le_rfl⟩

theorem alike_countDuplicate (s : Receiver) (id : UInt32) : Alike s (s.countDuplicate id) := by
  refine ⟨rfl, .trans (b := { s.stats with duplicates := s.stats.duplicates + 1 }) ?_ (.ahead _ _ ?_)⟩
  · exact ⟨rfl, le_rfl, le_rfl, Nat.le_succ _, le_rfl, fun _ => le_rfl, fun _ => .refl _⟩
  · exact fun x => ⟨rfl, le_rfl, Nat.le_succ _, le_rfl⟩

theorem alike_noteMalformed (s : Receiver) (reason : Bytes) (id : UInt32) :
    Alike s (s.noteMalformed reason (some id)) := by
  refine ⟨rfl, .trans
    (b := { s.stats with malformed := s.stats.malformed + 1,
                         malformedByReason := KeyMap.update 0 s.stats.malformedByReason reason (· + 1) })
    ?_ (.ahead _ _ ?_)⟩
  · refine ⟨rfl, le_rfl, le_rfl, le_rfl, Nat.le_succ _, ?_, fun _ => .refl _⟩
    intro other
    rw [KeyMap.get_update]
    split
    next eq => rw [eq]; exact Nat.le_succ _
    next => exact le_rfl
  · exact fun x => ⟨rfl, le_rfl, le_rfl, Nat.le_succ _⟩

end Operations

section Run

variable {s t s' : Receiver}

theorem Alike.handleDatagram (a : Alike s t) {data : Bytes} {now : UInt64} {io : Stdio} {r : Reaction}
    (done : s.handleDatagram data now io = .ok (s', r)) :
    ∃ t', t.handleDatagram data now io = .ok (t', r) ∧ Alike s' t' := by
  unfold Receiver.handleDatagram at done ⊢
  obtain ⟨p, parse, done⟩ := bind_ok.1 done
  have cfg : t.cfg = s.cfg := by rw [a.same]
  have reassembler : t.reassembler = s.reassembler := by rw [a.same]
  have sequences : t.sequences = s.sequences := by rw [a.same]
  split at done
  next bad =>
    cases done
    exact ⟨_, bind_ok.2 ⟨p, parse, if_pos bad⟩, a.noteMalformed _ _⟩
  next good =>
    obtain ⟨⟨u, o⟩, added, done⟩ := bind_ok.1 done
    obtain ⟨v, settled, done⟩ := bind_ok.1 done
    cases done
    obtain ⟨v', settled', alike⟩ := Alike.settle
      (((a.countDatagram p.hdr.sourceId data.length).advance u (observeNew s.sequences p.hdr o.newMessage).1).noteSequence
        p.hdr.sourceId (observeNew s.sequences p.hdr o.newMessage).2) p.hdr o io settled
    refine ⟨v', ?_, alike⟩
    refine bind_ok.2 ⟨p, parse, ?_⟩
    rw [if_neg good]
    refine bind_ok.2 ⟨(u, o), ?_, ?_⟩
    · show Reassembler.add t.cfg.reassemblerConfig t.reassembler _ _ _ = _
      rw [cfg, reassembler]
      exact added
    · refine bind_ok.2 ⟨v', ?_, ?_⟩
      · show Receiver.settle (Receiver.noteSequence (Receiver.advance _ _ (observeNew t.sequences _ _).1) _
          (observeNew t.sequences _ _).2) _ _ _ = _
        rw [sequences]
        exact settled'
      · show Except.ok (_, Reaction.added _ _ (observeNew t.sequences _ _).2) = _
        rw [sequences]
        rfl

theorem Alike.noteExpired_all (a : Alike s t) (es : List ExpiredMessage) :
    Alike (es.foldl Receiver.noteExpired s) (es.foldl Receiver.noteExpired t) := by
  induction es generalizing s t with
  | nil => exact a
  | cons e es ih => exact ih (a.noteExpired e)

theorem Alike.step (a : Alike s t) {e : Event} {r : Reaction} (done : Receiver.step s e = .ok (s', r)) :
    ∃ t', Receiver.step t e = .ok (t', r) ∧ Alike s' t' := by
  have quiet : ∀ {u v : Receiver × Bool}, Alike u.1 v.1 ∧ u.2 = v.2 →
      (.ok (u.1, .answered u.2) : Exec (Receiver × Reaction)) = .ok (s', r) →
      ∃ t', (.ok (v.1, .answered v.2) : Exec (Receiver × Reaction)) = .ok (t', r) ∧ Alike s' t' := by
    rintro u v ⟨alike, same⟩ done
    cases done
    exact ⟨_, by rw [same], alike⟩
  cases e with
  | datagram data now io => exact a.handleDatagram done
  | init io => exact quiet (a.init io) done
  | command raw io => exact quiet (a.handleCommand raw io) done
  | flush io => exact quiet (a.pollFlush io) done
  | close io => exact quiet (a.shutdown io) done
  | sweep now =>
    obtain ⟨same, g⟩ := a
    have a : Alike s { s with stats := t.stats } := ⟨rfl, g⟩
    cases done
    rw [same]
    exact ⟨_, rfl, (a.advance _ _).noteExpired_all _⟩

/-- Receivers that are alike react alike to every list of events, and stay alike. -/
theorem alike_run (a : Alike s t) {es : List Event} {rs : List Reaction} (ran : run Receiver.step s es = .ok (s', rs)) :
    ∃ t', run Receiver.step t es = .ok (t', rs) ∧ Alike s' t' := by
  induction es generalizing s t rs with
  | nil => cases ran; exact ⟨t, rfl, a⟩
  | cons e es ih =>
    obtain ⟨u, r, rest, one, after, rfl⟩ := run_cons.1 ran
    obtain ⟨v, one', alike⟩ := a.step one
    obtain ⟨t', after', alike'⟩ := ih alike after
    exact ⟨t', run_cons.2 ⟨v, r, rest, one', after', rfl⟩, alike'⟩

end Run

end IpcRelay.Receiver
