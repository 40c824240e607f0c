import IpcRelay.Receiver.Receiver
import IpcRelay.Receiver.ReassemblerFacts

/-!
# What one event does to the receiver

Reception goes through the reassembler and the sequence tracker; recording and
the commands do not touch it. `Step` says what an event does to these two and
which reaction it has, `ReceiverSourceStats.react` what a reaction adds to the
statistics of a source, whatever the capture file does. `step_cases` puts it
together: inside the invariant of the reassembler no event faults, and every
event is such a step. The results below are about reactions.
-/

namespace IpcRelay

open Wire Reassembler ExpiryQueue Capture

namespace ReceiverSourceStats

/-- The counts of the sequence tracker's verdict on a new message. -/
def sequenced (b : ReceiverSourceStats) : Option (SequenceTracker.Outcome × UInt64) → ReceiverSourceStats
  | some (.gap, missing) => { b with gapEvents := b.gapEvents + 1, missing := b.missing + missing }
  | some (.outOfOrder, _) => { b with outOfOrder := b.outOfOrder + 1 }
  | _ => b

/-- The counts of the reassembler's result. -/
def settled (b : ReceiverSourceStats) (o : AddOutcome) : ReceiverSourceStats :=
  match o.result with
  | .complete => { b with
      messages := b.messages + 1
      payloadBytes := b.payloadBytes + o.out.length
      lastSequence := o.out.sequence
      lastTimestampNs := o.out.timestampNs }
  | .incomplete => b
  | .duplicate => { b with duplicates := b.duplicates + 1 }
  | .malformed => { b with malformed := b.malformed + 1 }

/-- What a reaction adds to the block of source `k`. -/
def react (k : UInt32) (b : ReceiverSourceStats) : Receiver.Reaction → ReceiverSourceStats
  | .rejected _ source => if source = some k then { b with malformed := b.malformed + 1 } else b
  | .added hdr o seq =>
    if hdr.sourceId = k then (({ b with datagrams := b.datagrams + 1 } : ReceiverSourceStats).sequenced seq).settled o
    else b
  | .swept o => { b with incomplete := b.incomplete + o.notified.countP fun e => e.sourceId = k }
  | .answered _ => b

end ReceiverSourceStats

namespace Receiver

/-- The statistics of a source without `records_written`, the only one that depends on recording. -/
def reception (s : Receiver) (k : UInt32) : ReceiverSourceStats := { s.stats.block k with recordsWritten := 0 }

/-- The global incomplete counter is the sum over the sources. -/
def Balanced (s : Receiver) : Prop := KeyMap.total s.stats.sources (fun _ b => b.incomplete) = s.stats.incomplete

/-- The books of `s'` are those of `s` with `g` applied to the block of each source; the
reassembler and the configuration are the same. -/
structure Books (s s' : Receiver) (g : UInt32 → ReceiverSourceStats → ReceiverSourceStats) : Prop where
  cfg : s'.cfg = s.cfg
  reassembler : s'.reassembler = s.reassembler
  blocks : ∀ k, s'.reception k = g k (s.reception k)
  balanced : s.Balanced → s'.Balanced

/-- What an event does to the reassembler and the sequence tracker, and its reaction. -/
inductive Step (s : Receiver) : Event → Reassembler → SequenceTracker → Reaction → Prop where
  | rejected {data : Bytes} {now : UInt64} {io : Stdio} {p : Parsed} (parse : parseDatagram data {} = .ok p)
      (bad : p.err ≠ .none) :
      Step s (.datagram data now io) s.reassembler s.sequences (.rejected p.err (blamed p))
  | added {f : Fragment} {now : UInt64} {io : Stdio} {r : Reassembler} {o : AddOutcome}
      (c : AddCase s.cfg.reassemblerConfig s.reassembler f now r o) :
      Step s (.datagram f.datagram now io) r (observeNew s.sequences f.hdr o.newMessage).1
        (.added f.hdr o (observeNew s.sequences f.hdr o.newMessage).2)
  | swept {now : UInt64} {r : Reassembler} {o : ExpireOutcome}
      (c : StepCase s.cfg.reassemblerConfig s.reassembler (.expire now) r (.expired o)) :
      Step s (.sweep now) r s.sequences (.swept o)
  | quiet {e : Event} {ok : Bool} (datagram : ∀ data now io, e ≠ .datagram data now io)
      (sweep : ∀ now, e ≠ .sweep now) : Step s e s.reassembler s.sequences (.answered ok)

section Books

variable {s s' t : Receiver} {g h : UInt32 → ReceiverSourceStats → ReceiverSourceStats}

@[simp] theorem block_source (st : ReceiverStats) (id k : UInt32) (f : ReceiverSourceStats → ReceiverSourceStats) :
    (st.source id f).block k = if k = id then f (st.block id) else st.block k :=
  KeyMap.get_update _ _ _ _ _

theorem Books.trans (a : Books s s' g) (b : Books s' t h) : Books s t fun k x => h k (g k x) where
  cfg := b.cfg.trans a.cfg
  reassembler := b.reassembler.trans a.reassembler
  blocks k := by rw [b.blocks, a.blocks]
  balanced := fun bal => b.balanced (a.balanced bal)

/-- Books that stay as they are. -/
theorem Books.same (cfg : s'.cfg = s.cfg) (reassembler : s'.reassembler = s.reassembler)
    (sources : s'.stats.sources = s.stats.sources) (incomplete : s'.stats.incomplete = s.stats.incomplete) :
    Books s s' fun _ b => b where
  cfg := cfg
  reassembler := reassembler
  blocks k := by unfold reception ReceiverStats.block; rw [sources]
  balanced := by unfold Balanced; rw [sources, incomplete]; exact id

theorem Books.keep (a : Books s s' g) (b : Books s' t fun _ x => x) : Books s t g := a.trans b

/-- A change of one block that leaves `incomplete` alone. -/
theorem Books.source {id : UInt32} {f f' : ReceiverSourceStats → ReceiverSourceStats} {st : ReceiverStats}
    (cfg : s'.cfg = s.cfg) (reassembler : s'.reassembler = s.reassembler) (stats : s'.stats = st.source id f)
    (sources : st.sources = s.stats.sources) (incomplete : st.incomplete = s.stats.incomplete)
    (keep : ∀ b, (f b).incomplete = b.incomplete)
    (frame : ∀ b, { f b with recordsWritten := 0 } = f' { b with recordsWritten := 0 }) :
    Books s s' fun k b => if k = id then f' b else b where
  cfg := cfg
  reassembler := reassembler
  blocks k := by
    have same : ∀ j, st.block j = s.stats.block j := fun j => by unfold ReceiverStats.block; rw [sources]
    unfold reception
    rw [stats, block_source, same, same]
    split
    next eq => rw [frame, eq]
    next => rfl
  balanced := by
    intro bal
    have step := KeyMap.total_update {} st.sources id f (fun _ b => b.incomplete) rfl
    simp only [keep, Nat.add_right_cancel_iff] at step
    unfold Balanced at bal ⊢
    rw [stats]
    show KeyMap.total (KeyMap.update {} st.sources id f) _ = st.incomplete
    rw [step, sources, incomplete, bal]

theorem books_countDatagram (s : Receiver) (id : UInt32) (len : Nat) :
    Books s (s.countDatagram id len) fun k b => if k = id then { b with datagrams := b.datagrams + 1 } else b :=
  .source rfl rfl rfl rfl rfl (fun _ => rfl) fun _ => rfl

theorem books_countDuplicate (s : Receiver) (id : UInt32) :
    Books s (s.countDuplicate id) fun k b => if k = id then { b with duplicates := b.duplicates + 1 } else b :=
  .source rfl rfl rfl rfl rfl (fun _ => rfl) fun _ => rfl

theorem books_noteMalformed (s : Receiver) (reason : Bytes) (source : Option UInt32) :
    Books s (s.noteMalformed reason source) fun k b =>
      if source = some k then { b with malformed := b.malformed + 1 } else b := by
  cases source with
  | none =>
    have same : Books s (s.noteMalformed reason none) fun _ b => b := .same rfl rfl rfl rfl
    simpa using same
  | some id =>
    have one : Books s (s.noteMalformed reason (some id)) fun k b =>
        if k = id then { b with malformed := b.malformed + 1 } else b :=
      .source rfl rfl rfl rfl rfl (fun _ => rfl) fun _ => rfl
    simpa [eq_comm] using one

theorem books_noteSequence (s : Receiver) (id : UInt32) (seq : Option (SequenceTracker.Outcome × UInt64)) :
    (s.noteSequence id seq).sequences = s.sequences ∧
      Books s (s.noteSequence id seq) fun k b => if k = id then b.sequenced seq else b := by
  have same : Books s s fun k b => if k = id then b else b := by
    simp only [ite_self]
    exact .same rfl rfl rfl rfl
  rcases seq with _ | ⟨outcome, missing⟩
  · exact ⟨rfl, same⟩
  cases outcome with
  | first => exact ⟨rfl, same⟩
  | inOrder => exact ⟨rfl, same⟩
  | gap => exact ⟨rfl, .source rfl rfl rfl rfl rfl (fun _ => rfl) fun _ => rfl⟩
  | outOfOrder => exact ⟨rfl, .source rfl rfl rfl rfl rfl (fun _ => rfl) fun _ => rfl⟩

end Books

section Quiet

/-- An operation that leaves reception alone: it works on the capture file and its statistics. -/
structure Quiet (s s' : Receiver) : Prop where
  books : Books s s' fun _ b => b
  sequences : s'.sequences = s.sequences

theorem Quiet.of_eq {s s' : Receiver} (cfg : s'.cfg = s.cfg) (reassembler : s'.reassembler = s.reassembler)
    (sequences : s'.sequences = s.sequences) (sources : s'.stats.sources = s.stats.sources)
    (incomplete : s'.stats.incomplete = s.stats.incomplete) : Quiet s s' :=
  ⟨.same cfg reassembler sources incomplete, sequences⟩

theorem quiet_setRecording (s : Receiver) (enabled : Bool) (io : Stdio) : Quiet s (s.setRecording enabled io).1 := by
  unfold setRecording
  split
  · split
    · exact .of_eq rfl rfl rfl rfl rfl
    · split
      · split <;> exact .of_eq rfl rfl rfl rfl rfl
      · exact .of_eq rfl rfl rfl rfl rfl
  · dsimp only
    split
    · split <;> exact .of_eq rfl rfl rfl rfl rfl
    · exact .of_eq rfl rfl rfl rfl rfl

theorem quiet_handleCommand (s : Receiver) (raw : Bytes) (io : Stdio) : Quiet s (s.handleCommand raw io).1 := by
  have counted : ∀ enabled, Quiet s
      (setRecording { s with stats := { s.stats with commands := s.stats.commands + 1 } } enabled io).1 := by
    intro enabled
    have q := quiet_setRecording { s with stats := { s.stats with commands := s.stats.commands + 1 } } enabled io
    exact ⟨⟨q.books.cfg, q.books.reassembler, q.books.blocks, q.books.balanced⟩, q.sequences⟩
  unfold handleCommand
  dsimp only
  split
  · exact counted true
  split
  · exact counted false
  split
  · exact counted _
  split
  · split
    · split <;> exact .of_eq rfl rfl rfl rfl rfl
    · exact .of_eq rfl rfl rfl rfl rfl
  split <;> exact .of_eq rfl rfl rfl rfl rfl

theorem quiet_init (s : Receiver) (io : Stdio) : Quiet s (s.init io).1 := by
  unfold init
  split
  · exact quiet_setRecording s true io
  · exact .of_eq rfl rfl rfl rfl rfl

theorem quiet_pollFlush (s : Receiver) (io : Stdio) : Quiet s (s.pollFlush io).1 := by
  unfold pollFlush
  split
  · split <;> exact .of_eq rfl rfl rfl rfl rfl
  · exact .of_eq rfl rfl rfl rfl rfl

theorem quiet_shutdown (s : Receiver) (io : Stdio) : Quiet s (s.shutdown io).1 := by
  unfold shutdown
  split
  · split <;> exact .of_eq rfl rfl rfl rfl rfl
  · exact .of_eq rfl rfl rfl rfl rfl

end Quiet

section Complete

/-- The counters of a completed message; what the capture file answers changes `records_written` at most. -/
theorem books_onComplete (s : Receiver) (m : CompletedMessage) (io : Stdio) (len : m.length ≤ m.data.length) :
    ∃ s', s.onComplete m io = .ok s' ∧ s'.sequences = s.sequences ∧
      Books s s' fun k b => if k = m.sourceId then b.settled ⟨.complete, m, true⟩ else b := by
  have counted : Books s (s.countMessage m) fun k b => if k = m.sourceId then b.settled ⟨.complete, m, true⟩ else b :=
    .source rfl rfl rfl rfl rfl (fun _ => rfl) fun _ => rfl
  unfold onComplete
  dsimp only
  split
  · exact ⟨_, rfl, rfl, counted.keep (.same rfl rfl rfl rfl)⟩
  · obtain ⟨w, ok, written⟩ := (s.countMessage m).writer.writeRecord_total
      { sourceId := m.sourceId, sequence := m.sequence, timestampNs := m.timestampNs, flags := m.flags } len io
    rw [written]
    cases ok with
    | false => exact ⟨_, rfl, rfl, counted.keep (.same rfl rfl rfl rfl)⟩
    | true =>
      refine ⟨_, rfl, rfl, counted.keep ?_⟩
      have record : Books (s.countMessage m)
          { s.countMessage m with writer := w, stats := (s.countMessage m).stats.source m.sourceId fun ss =>
            { ss with recordsWritten := ss.recordsWritten + 1 } } fun k b => if k = m.sourceId then b else b :=
        .source rfl rfl rfl rfl rfl (fun _ => rfl) fun _ => rfl
      simpa only [ite_self] using record

theorem books_settle (s : Receiver) {cfg : Reassembler.Config} {u r : Reassembler} {f : Fragment}
    {now : UInt64} {o : AddOutcome} (c : AddCase cfg u f now r o) (io : Stdio) :
    ∃ s', s.settle f.hdr o io = .ok s' ∧ s'.sequences = s.sequences ∧
      Books s s' fun k b => if k = f.hdr.sourceId then b.settled o else b := by
  have out := c.out_ok
  obtain ⟨result, m, new⟩ := o
  cases result with
  | complete =>
    obtain ⟨source, len⟩ := out rfl
    obtain ⟨s', done, sequences, books⟩ := books_onComplete s m io len
    refine ⟨s', done, sequences, ?_⟩
    rw [← show m.sourceId = f.hdr.sourceId from source]
    exact books
  | incomplete =>
    refine ⟨s, rfl, rfl, ?_⟩
    simp only [ReceiverSourceStats.settled, ite_self]
    exact .same rfl rfl rfl rfl
  | duplicate => exact ⟨_, rfl, rfl, books_countDuplicate s f.hdr.sourceId⟩
  | malformed =>
    refine ⟨_, rfl, ?_, ?_⟩
    · rfl
    · simpa [ReceiverSourceStats.settled, eq_comm] using
        books_noteMalformed s (str "fragment_inconsistent") (some f.hdr.sourceId)

end Complete

section Sweep

theorem books_noteExpired (s : Receiver) (e : ExpiredMessage) :
    Books s (s.noteExpired e) fun k b =>
      { b with incomplete := b.incomplete + if e.sourceId = k then 1 else 0 } where
  cfg := rfl
  reassembler := rfl
  blocks k := by
    show ({ (s.noteExpired e).stats.block k with recordsWritten := 0 } : ReceiverSourceStats) = _
    unfold noteExpired
    dsimp only
    rw [block_source]
    by_cases own : k = e.sourceId
    · rw [if_pos own, if_pos own.symm, own]; rfl
    · rw [if_neg own, if_neg (Ne.symm own)]; rfl
  balanced := by
    intro bal
    have step := KeyMap.total_update {} s.stats.sources e.sourceId
      (fun b : ReceiverSourceStats => { b with incomplete := b.incomplete + 1 }) (fun _ b => b.incomplete) rfl
    unfold Balanced at bal
    show KeyMap.total (KeyMap.update {} s.stats.sources e.sourceId
      fun b : ReceiverSourceStats => { b with incomplete := b.incomplete + 1 }) _ = s.stats.incomplete + 1
    dsimp only at step
    omega

theorem books_noteExpired_all (s : Receiver) (es : List ExpiredMessage) :
    (es.foldl noteExpired s).sequences = s.sequences ∧
      Books s (es.foldl noteExpired s) fun k b =>
        { b with incomplete := b.incomplete + es.countP fun e => e.sourceId = k } := by
  induction es generalizing s with
  | nil => exact ⟨rfl, .same rfl rfl rfl rfl⟩
  | cons e es ih =>
    obtain ⟨sequences, rest⟩ := ih (s.noteExpired e)
    have both := (books_noteExpired s e).trans rest
    refine ⟨sequences, both.cfg, both.reassembler, ?_, both.balanced⟩
    intro k
    refine (both.blocks k).trans ?_
    simp only [List.countP_cons, decide_eq_true_eq]
    rw [Nat.add_assoc, Nat.add_comm (if e.sourceId = k then 1 else 0)]

end Sweep

section Cases

variable {s : Receiver}

/-- Everything an event does: to reception, to the statistics of each source, to their sum. -/
structure Stepped (s : Receiver) (e : Event) (s' : Receiver) (r : Reaction) : Prop where
  front : Step s e s'.reassembler s'.sequences r
  cfg : s'.cfg = s.cfg
  blocks : ∀ k, s'.reception k = (s.reception k).react k r
  balanced : s.Balanced → s'.Balanced

theorem Stepped.quiet {s' : Receiver} {e : Event} {ok : Bool} (q : Quiet s s')
    (datagram : ∀ data now io, e ≠ .datagram data now io) (sweep : ∀ now, e ≠ .sweep now) :
    Stepped s e s' (.answered ok) where
  front := by rw [q.books.reassembler, q.sequences]; exact .quiet datagram sweep
  cfg := q.books.cfg
  blocks := q.books.blocks
  balanced := q.books.balanced

theorem sweep_stepped (inv : Inv s.cfg.reassemblerConfig s.reassembler) (pos : 0 < s.cfg.reassemblerConfig.maxPending)
    (now : UInt64) : Stepped s (.sweep now) (s.sweepReassembly now).1 (.swept (s.sweepReassembly now).2) := by
  rcases he : expire s.cfg.reassemblerConfig s.reassembler now with ⟨r, o⟩
  obtain ⟨sequences, books⟩ := books_noteExpired_all (s.advance r s.sequences) o.notified
  have swept : s.sweepReassembly now = (o.notified.foldl noteExpired (s.advance r s.sequences), o) := by
    simp only [sweepReassembly, he]
  have c : StepCase s.cfg.reassemblerConfig s.reassembler (.expire now) r (.expired o) :=
    stepCase_of_step inv pos (by simp only [Reassembler.step, he])
  rw [swept]
  refine ⟨?_, books.cfg, books.blocks, books.balanced⟩
  rw [books.reassembler, sequences]
  exact .swept c

theorem rejected_stepped {data : Bytes} {p : Parsed} (parse : parseDatagram data {} = .ok p) (bad : p.err ≠ .none)
    (now : UInt64) (io : Stdio) : ∃ s', handleDatagram s data now io = .ok (s', .rejected p.err (blamed p)) ∧
      Stepped s (.datagram data now io) s' (.rejected p.err (blamed p)) := by
  refine ⟨s.noteMalformed p.err.toText (blamed p), ?_, ?_⟩
  · simp only [handleDatagram, parse, bind, Except.bind, bad, ne_eq, not_false_eq_true, if_true]
  · have books := books_noteMalformed s p.err.toText (blamed p)
    have sequences : (s.noteMalformed p.err.toText (blamed p)).sequences = s.sequences := by
      unfold noteMalformed; cases blamed p <;> rfl
    refine ⟨?_, books.cfg, books.blocks, books.balanced⟩
    rw [books.reassembler, sequences]
    exact .rejected parse bad

/-- The way of an accepted datagram: it is counted, the front end moves on, and its two answers are counted. -/
theorem handleDatagram_accepted (s : Receiver) (f : Fragment) (now : UInt64) (io : Stdio) {r : Reassembler}
    {o : AddOutcome} {t : SequenceTracker} {seq : Option (SequenceTracker.Outcome × UInt64)}
    (added : add s.cfg.reassemblerConfig s.reassembler f.hdr f.payload now = .ok (r, o))
    (observed : observeNew s.sequences f.hdr o.newMessage = (t, seq)) {s' : Receiver}
    (settled : (((s.countDatagram f.hdr.sourceId f.datagram.length).advance r t).noteSequence f.hdr.sourceId
      seq).settle f.hdr o io = .ok s') : handleDatagram s f.datagram now io = .ok (s', .added f.hdr o seq) := by
  have cfg : (s.countDatagram f.hdr.sourceId f.datagram.length).cfg = s.cfg := rfl
  have reassembler : (s.countDatagram f.hdr.sourceId f.datagram.length).reassembler = s.reassembler := rfl
  have sequences : (s.countDatagram f.hdr.sourceId f.datagram.length).sequences = s.sequences := rfl
  simp only [handleDatagram, f.accepted, bind, Except.bind, ne_eq, not_true_eq_false, if_false, Option.getD_some,
    cfg, reassembler, added, sequences, observed, settled]

theorem added_stepped (inv : Inv s.cfg.reassemblerConfig s.reassembler) (pos : 0 < s.cfg.reassemblerConfig.maxPending)
    (f : Fragment) (now : UInt64) (io : Stdio) : ∃ s' r, handleDatagram s f.datagram now io = .ok (s', r) ∧
      Stepped s (.datagram f.datagram now io) s' r := by
  obtain ⟨r, o, added, c⟩ := add_cases inv pos f now
  rcases hseq : observeNew s.sequences f.hdr o.newMessage with ⟨t, seq⟩
  have arrived := books_countDatagram s f.hdr.sourceId f.datagram.length
  obtain ⟨told, sequenced⟩ := books_noteSequence ((s.countDatagram f.hdr.sourceId f.datagram.length).advance r t)
    f.hdr.sourceId seq
  obtain ⟨s', done, kept, settled⟩ := books_settle
    (((s.countDatagram f.hdr.sourceId f.datagram.length).advance r t).noteSequence f.hdr.sourceId seq) c io
  have books := sequenced.trans settled
  refine ⟨s', .added f.hdr o seq, handleDatagram_accepted s f now io added hseq done, ?_, ?_, ?_, ?_⟩
  · have front : Step s (.datagram f.datagram now io) r (observeNew s.sequences f.hdr o.newMessage).1
        (.added f.hdr o (observeNew s.sequences f.hdr o.newMessage).2) := .added c
    rw [hseq] at front
    rw [books.reassembler, kept, told]
    exact front
  · exact books.cfg
  · intro k
    refine (books.blocks k).trans ?_
    have same : ((s.countDatagram f.hdr.sourceId f.datagram.length).advance r t).reception k =
      (s.countDatagram f.hdr.sourceId f.datagram.length).reception k := rfl
    rw [same, arrived.blocks k]
    by_cases own : k = f.hdr.sourceId
    · simp only [ReceiverSourceStats.react, own, if_true]
    · simp only [ReceiverSourceStats.react, own, Ne.symm own, if_false]
  · exact fun bal => books.balanced (arrived.balanced bal)

/-- Inside the invariant of the reassembler no event faults, and every event is a step. -/
theorem step_cases (inv : Inv s.cfg.reassemblerConfig s.reassembler) (pos : 0 < s.cfg.reassemblerConfig.maxPending)
    (e : Event) : ∃ s' r, step s e = .ok (s', r) ∧ Stepped s e s' r := by
  cases e with
  | init io => exact ⟨_, _, rfl, .quiet (quiet_init s io) (by simp) (by simp)⟩
  | command raw io => exact ⟨_, _, rfl, .quiet (quiet_handleCommand s raw io) (by simp) (by simp)⟩
  | flush io => exact ⟨_, _, rfl, .quiet (quiet_pollFlush s io) (by simp) (by simp)⟩
  | close io => exact ⟨_, _, rfl, .quiet (quiet_shutdown s io) (by simp) (by simp)⟩
  | sweep now => exact ⟨_, _, rfl, sweep_stepped inv pos now⟩
  | datagram data now io =>
    rcases Fragment.accepted_or_rejected data with ⟨f, rfl⟩ | ⟨p, parse, bad⟩
    · exact added_stepped inv pos f now io
    · obtain ⟨s', done, stepped⟩ := rejected_stepped (s := s) parse bad now io
      exact ⟨s', _, done, stepped⟩

end Cases

section Runs

open Machine

variable {cfg : ReceiverConfig} {s s' : Receiver} {e : Event} {r : Reaction}

/-- What holds of the receiver in every state that it reaches. -/
structure Sane (cfg : ReceiverConfig) (s : Receiver) : Prop where
  ofCfg : s.cfg = cfg
  inv : Inv cfg.reassemblerConfig s.reassembler
  balanced : s.Balanced

theorem sane_create (cfg : ReceiverConfig) : Sane cfg (create cfg) := ⟨rfl, inv_init _, rfl⟩

theorem Step.inv {u : Reassembler} {t : SequenceTracker} (inv : Inv s.cfg.reassemblerConfig s.reassembler)
    (front : Step s e u t r) : Inv s.cfg.reassemblerConfig u := by
  cases front with
  | rejected => exact inv
  | added c => exact c.inv inv
  | swept c => exact c.inv inv
  | quiet => exact inv

theorem Stepped.sane (sane : Sane cfg s) (stepped : Stepped s e s' r) : Sane cfg s' := by
  obtain ⟨rfl, inv, balanced⟩ := sane
  exact ⟨stepped.cfg, stepped.front.inv inv, stepped.balanced balanced⟩

theorem stepped_of_step (sound : cfg.Sound) (sane : Sane cfg s) (h : step s e = .ok (s', r)) : Stepped s e s' r := by
  obtain ⟨rfl, inv, _⟩ := sane
  obtain ⟨t, r', h', stepped⟩ := step_cases inv sound.maxPending_pos e
  rw [h] at h'
  cases h'
  exact stepped

/-- Every list of events runs without a fault. -/
theorem run_ok (sound : cfg.Sound) (es : List Event) (sane : Sane cfg s) :
    ∃ t rs, run step s es = .ok (t, rs) ∧ Sane cfg t := by
  refine run_total (I := Sane cfg) ?_ es sane
  rintro u e ⟨rfl, inv, balanced⟩
  obtain ⟨u', r, h, stepped⟩ := step_cases inv sound.maxPending_pos e
  exact ⟨u', r, h, stepped.sane ⟨rfl, inv, balanced⟩⟩

theorem sane_of_trace {h : List (Event × Reaction)} (sound : cfg.Sound) (tr : Trace step (create cfg) h s) :
    Sane cfg s :=
  tr.invariant (sane_create cfg) fun _ _ _ _ sane hs => (stepped_of_step sound sane hs).sane sane

/-- The statistics of a source are what the reactions add up to. -/
theorem reception_of_run (sound : cfg.Sound) {es : List Event} {rs : List Reaction} (sane : Sane cfg s)
    (ran : run step s es = .ok (s', rs)) (k : UInt32) :
    s'.reception k = rs.foldl (ReceiverSourceStats.react k) (s.reception k) := by
  induction es generalizing s rs with
  | nil => cases ran; rfl
  | cons e es ih =>
    obtain ⟨u, r, rest, hs, after, rfl⟩ := run_cons.1 ran
    have stepped := stepped_of_step sound sane hs
    rw [ih (stepped.sane sane) after, stepped.blocks k, List.foldl_cons]

end Runs

end Receiver

end IpcRelay
