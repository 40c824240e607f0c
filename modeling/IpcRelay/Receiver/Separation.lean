import IpcRelay.Receiver.Recording

/-!
# Reception does not depend on recording

`receive` is reception alone: a machine over the reassembler and the sequence
tracker that knows datagrams and sweeps and nothing of commands, files or
counters. Every run of the receiver is a run of it over the events that it
knows (`received_of_run`), and the reception statistics are what its reactions
add up to (`Tally.react`). So two runs with the same datagrams and sweeps agree
on all of it, whatever else happens in them (`recording_never_affects_reception`).
-/

namespace IpcRelay

open Wire Capture Machine Reassembler

/-- The statistics without those of the commands and of the capture file. -/
def ReceiverStats.heard (st : ReceiverStats) : ReceiverStats :=
  { st with
    recordsWritten := 0, recordBytes := 0, writeErrors := 0, commands := 0, reassemblyPending := 0
    recordingEnabled := false, captureOpen := false, captureFailed := false, captureError := [] }

namespace Receiver

/-- What reception is told. -/
inductive Received where
  | datagram (data : Bytes) (now : UInt64)
  | sweep (now : UInt64)
  deriving DecidableEq

def Event.received : Event → Option Received
  | .datagram data now _ => some (.datagram data now)
  | .sweep now => some (.sweep now)
  | _ => none

/-- The state of reception. -/
structure Front where
  reassembler : Reassembler := {}
  sequences : SequenceTracker := {}

def front (s : Receiver) : Front := ⟨s.reassembler, s.sequences⟩

/-- One step of reception. -/
def receive (cfg : ReceiverConfig) (u : Front) : Received → Exec (Front × Reaction)
  | .datagram data now => do
    let p ← parseDatagram data {}
    if p.err ≠ .none then .ok (u, .rejected p.err (blamed p))
    else do
      let (reassembler, o) ← add cfg.reassemblerConfig u.reassembler p.hdr (p.payload.getD []) now
      let (sequences, seq) := observeNew u.sequences p.hdr o.newMessage
      .ok (⟨reassembler, sequences⟩, .added p.hdr o seq)
  | .sweep now =>
    let (reassembler, o) := expire cfg.reassemblerConfig u.reassembler now
    .ok (⟨reassembler, u.sequences⟩, .swept o)

/-- The reactions of reception, among those of a run. -/
def Reaction.heard : Reaction → Bool
  | .answered _ => false
  | _ => true

/-- The global reception statistics. -/
structure Tally where
  datagrams : Nat := 0
  datagramBytes : Nat := 0
  messages : Nat := 0
  payloadBytes : Nat := 0
  malformed : Nat := 0
  malformedByReason : KeyMap Bytes Nat := ∅
  incomplete : Nat := 0
  duplicates : Nat := 0

def tally (s : Receiver) : Tally where
  datagrams := s.stats.datagrams
  datagramBytes := s.stats.datagramBytes
  messages := s.stats.messages
  payloadBytes := s.stats.payloadBytes
  malformed := s.stats.malformed
  malformedByReason := s.stats.malformedByReason
  incomplete := s.stats.incomplete
  duplicates := s.stats.duplicates

namespace Tally

def malform (v : Tally) (reason : Bytes) : Tally :=
  { v with malformed := v.malformed + 1, malformedByReason := KeyMap.update 0 v.malformedByReason reason (· + 1) }

/-- The counts of the reassembler's result. -/
def settled (v : Tally) (o : AddOutcome) : Tally :=
  match o.result with
  | .complete => { v with messages := v.messages + 1, payloadBytes := v.payloadBytes + o.out.length }
  | .incomplete => v
  | .duplicate => { v with duplicates := v.duplicates + 1 }
  | .malformed => v.malform (str "fragment_inconsistent")

/-- What a reaction adds; an accepted datagram is its header and its payload. -/
def react (v : Tally) : Reaction → Tally
  | .rejected err _ => v.malform err.toText
  | .added hdr o _ => settled { v with
      datagrams := v.datagrams + 1
      datagramBytes := v.datagramBytes + (kHeaderSize + hdr.fragmentLength.toNat) } o
  | .swept o => { v with incomplete := v.incomplete + o.notified.length }
  | .answered _ => v

end Tally

section Tally

variable {s s' : Receiver} {io : Stdio}

theorem tally_noteMalformed (s : Receiver) (reason : Bytes) (source : Option UInt32) :
    (s.noteMalformed reason source).tally = s.tally.malform reason := by
  unfold noteMalformed
  cases source <;> rfl

theorem tally_noteSequence (s : Receiver) (id : UInt32) (seq : Option (SequenceTracker.Outcome × UInt64)) :
    (s.noteSequence id seq).tally = s.tally := by
  unfold noteSequence
  split <;> rfl

theorem tally_onComplete {m : CompletedMessage} (done : s.onComplete m io = .ok s') :
    s'.tally = s.tally.settled ⟨.complete, m, true⟩ := by
  unfold onComplete at done
  dsimp only at done
  split at done
  · cases done; rfl
  · obtain ⟨⟨w, ok⟩, -, done⟩ := bind_ok.1 done
    cases ok <;> cases done <;> rfl

theorem tally_settle {hdr : Header} {o : AddOutcome} (done : s.settle hdr o io = .ok s') :
    s'.tally = s.tally.settled o := by
  obtain ⟨result, m, new⟩ := o
  cases result with
  | complete => exact tally_onComplete done
  | incomplete => cases done; rfl
  | duplicate => cases done; rfl
  | malformed => cases done; exact tally_noteMalformed _ _ _

theorem tally_noteExpired_all (s : Receiver) (es : List ExpiredMessage) :
    (es.foldl noteExpired s).tally = { s.tally with incomplete := s.tally.incomplete + es.length } := by
  induction es generalizing s with
  | nil => rfl
  | cons e es ih =>
    rw [List.foldl_cons, ih, List.length_cons]
    simp only [tally, noteExpired, ReceiverStats.source]
    congr 1
    omega

theorem front_noteSequence (s : Receiver) (id : UInt32) (seq : Option (SequenceTracker.Outcome × UInt64)) :
    (s.noteSequence id seq).front = s.front := by
  unfold noteSequence
  split <;> rfl

theorem front_noteMalformed (s : Receiver) (reason : Bytes) (source : Option UInt32) :
    (s.noteMalformed reason source).front = s.front := by
  unfold noteMalformed
  cases source <;> rfl

theorem front_settle {hdr : Header} {o : AddOutcome} (done : s.settle hdr o io = .ok s') : s'.front = s.front := by
  obtain ⟨result, m, new⟩ := o
  cases result with
  | incomplete => cases done; rfl
  | duplicate => cases done; rfl
  | malformed => cases done; exact front_noteMalformed _ _ _
  | complete =>
    change s.onComplete m io = .ok s' at done
    unfold onComplete at done
    dsimp only at done
    split at done
    · cases done; rfl
    · obtain ⟨⟨w, ok⟩, -, done⟩ := bind_ok.1 done
      cases ok <;> cases done <;> rfl

theorem front_noteExpired_all (s : Receiver) (es : List ExpiredMessage) : (es.foldl noteExpired s).front = s.front := by
  induction es generalizing s with
  | nil => rfl
  | cons e es ih => exact (ih (s.noteExpired e)).trans rfl

theorem tally_of_heard (same : s'.stats.heard = s.stats.heard) : s'.tally = s.tally := by
  have field : ∀ {α : Type} (f : ReceiverStats → α), f s'.stats.heard = f s.stats.heard := fun f => by rw [same]
  simp only [tally, Tally.mk.injEq]
  exact ⟨field (·.datagrams), field (·.datagramBytes), field (·.messages), field (·.payloadBytes), field (·.malformed),
    field (·.malformedByReason), field (·.incomplete), field (·.duplicates)⟩

theorem heard_setRecording (s : Receiver) (enabled : Bool) (io : Stdio) :
    (s.setRecording enabled io).1.stats.heard = s.stats.heard := by
  unfold setRecording
  split
  · split
    · rfl
    · split
      · split <;> rfl
      · rfl
  · dsimp only
    split
    · split <;> rfl
    · rfl

theorem heard_handleCommand (s : Receiver) (raw : Bytes) (io : Stdio) :
    (s.handleCommand raw io).1.stats.heard = s.stats.heard := by
  unfold handleCommand
  dsimp only
  split
  · exact heard_setRecording _ true io
  split
  · exact heard_setRecording _ false io
  split
  · exact heard_setRecording _ _ io
  split
  · split
    · split <;> rfl
    · rfl
  split <;> rfl

theorem heard_init (s : Receiver) (io : Stdio) : (s.init io).1.stats.heard = s.stats.heard := by
  unfold init
  split
  · exact heard_setRecording s true io
  · rfl

theorem heard_pollFlush (s : Receiver) (io : Stdio) : (s.pollFlush io).1.stats.heard = s.stats.heard := by
  unfold pollFlush
  split
  · split <;> rfl
  · rfl

theorem heard_shutdown (s : Receiver) (io : Stdio) : (s.shutdown io).1.stats.heard = s.stats.heard := by
  unfold shutdown
  split
  · split <;> rfl
  · rfl

end Tally

section Run

variable {cfg : ReceiverConfig} {s s' : Receiver} {e : Event} {r : Reaction}

/-- An event that reception knows is a step of it. -/
theorem receive_of_step {w : Received} (known : e.received = some w) (one : step s e = .ok (s', r)) :
    receive s.cfg s.front w = .ok (s'.front, r) ∧ r.heard = true ∧ s'.tally = s.tally.react r := by
  cases e with
  | init => cases known
  | command => cases known
  | flush => cases known
  | close => cases known
  | sweep now =>
    cases known
    have eq := Except.ok.inj one
    obtain rfl : (s.sweepReassembly now).1 = s' := congrArg Prod.fst eq
    obtain rfl : .swept (s.sweepReassembly now).2 = r := congrArg Prod.snd eq
    have after : (s.sweepReassembly now).1.front =
        ⟨(expire s.cfg.reassemblerConfig s.reassembler now).1, s.sequences⟩ := front_noteExpired_all _ _
    refine ⟨?_, rfl, tally_noteExpired_all _ _⟩
    rw [after]
    rfl
  | datagram data now io =>
    cases known
    rcases Fragment.accepted_or_rejected data with ⟨f, rfl⟩ | ⟨p, parse, bad⟩
    · obtain ⟨u, o, added, rfl, settled⟩ := handleDatagram_inv one
      have after := (front_settle settled).trans (front_noteSequence _ _ _)
      have counted := (tally_settle settled).trans (congrArg (Tally.settled · o) (tally_noteSequence _ _ _))
      refine ⟨?_, rfl, ?_⟩
      · have same : s.front.reassembler = s.reassembler := rfl
        simp only [receive, f.accepted, bind, Except.bind, ne_eq, not_true_eq_false, if_false, Option.getD_some, same,
          added]
        rw [after]
        rfl
      · rw [counted, Tally.react, ← f.datagram_length]
        rfl
    · simp only [step, handleDatagram, parse, bind, Except.bind, bad, ne_eq, not_false_eq_true, if_true] at one
      cases one
      refine ⟨?_, rfl, tally_noteMalformed _ _ _⟩
      have same := front_noteMalformed s p.err.toText (blamed p)
      simp only [receive, parse, bind, Except.bind, bad, ne_eq, not_false_eq_true, if_true, same]

/-- Every other event leaves reception alone. -/
theorem silent_of_step (unknown : e.received = none) (one : step s e = .ok (s', r)) :
    s'.front = s.front ∧ r.heard = false ∧ s'.stats.heard = s.stats.heard := by
  have quiet : ∀ {q : Receiver × Bool}, Quiet s q.1 → q.1.stats.heard = s.stats.heard →
      (.ok (q.1, .answered q.2) : Exec (Receiver × Reaction)) = .ok (s', r) →
      s'.front = s.front ∧ r.heard = false ∧ s'.stats.heard = s.stats.heard := by
    rintro q quiet stats one
    cases one
    exact ⟨by rw [front, quiet.books.reassembler, quiet.sequences]; rfl, rfl, stats⟩
  cases e with
  | datagram => cases unknown
  | sweep => cases unknown
  | init io => exact quiet (quiet_init s io) (heard_init s io) one
  | command raw io => exact quiet (quiet_handleCommand s raw io) (heard_handleCommand s raw io) one
  | flush io => exact quiet (quiet_pollFlush s io) (heard_pollFlush s io) one
  | close io => exact quiet (quiet_shutdown s io) (heard_shutdown s io) one

/-- Every run of the receiver is a run of reception, and counts what its reactions add up to. -/
theorem received_of_run {es : List Event} {rs : List Reaction} (sound : cfg.Sound)
    (ran : run step (create cfg) es = .ok (s, rs)) :
    run (receive cfg) {} (es.filterMap Event.received) = .ok (s.front, rs.filter Reaction.heard) ∧
      s.tally = (rs.filter Reaction.heard).foldl Tally.react {} := by
  induction es using List.reverseRecOn generalizing s rs with
  | nil => cases ran; exact ⟨rfl, rfl⟩
  | append_singleton es e ih =>
    obtain ⟨u, us, r, before, one, rfl⟩ := run_snoc.1 ran
    obtain ⟨ranBefore, counted⟩ := ih before
    have cfg_eq := (sane_of_trace sound (Trace.of_run before)).ofCfg
    rw [List.filterMap_append, List.filter_append]
    cases known : e.received with
    | some w =>
      obtain ⟨received, heard, tally⟩ := receive_of_step known one
      rw [cfg_eq] at received
      have last : [e].filterMap Event.received = [w] := by simp [known]
      have reaction : [r].filter Reaction.heard = [r] := by simp [heard]
      rw [last, reaction, List.foldl_append, ← counted]
      exact ⟨run_snoc.2 ⟨_, _, r, ranBefore, received, rfl⟩, tally⟩
    | none =>
      obtain ⟨kept, silent, stats⟩ := silent_of_step known one
      have last : [e].filterMap Event.received = [] := by simp [known]
      have reaction : [r].filter Reaction.heard = [] := by simp [silent]
      rw [last, reaction, List.append_nil, List.append_nil, kept, tally_of_heard stats]
      exact ⟨ranBefore, counted⟩

theorem messages_heard (rs : List Reaction) : messages (rs.filter Reaction.heard) = messages rs := by
  unfold messages
  rw [List.filterMap_filter]
  congr 1
  funext r
  cases r <;> simp [Reaction.heard, Reaction.message]

/-- The statistics of a source are those that the reactions of reception add up to. -/
theorem reception_heard (k : UInt32) (rs : List Reaction) (b : ReceiverSourceStats) :
    (rs.filter Reaction.heard).foldl (ReceiverSourceStats.react k) b = rs.foldl (ReceiverSourceStats.react k) b := by
  induction rs generalizing b with
  | nil => rfl
  | cons r rs ih =>
    cases heard : r.heard with
    | true => rw [List.filter_cons_of_pos heard, List.foldl_cons, List.foldl_cons, ih]
    | false =>
      have same : b.react k r = b := by
        cases r <;> first | rfl | cases heard
      rw [List.filter_cons_of_neg (by simp [heard]), List.foldl_cons, same, ih]

/-- Two runs with the same datagrams, clock readings and sweeps agree on the reassembler, the
sequence tracker, the completed messages and all reception statistics, whatever commands,
flushes and failures of the capture file there are between them. -/
theorem recording_never_affects_reception (cfg : ReceiverConfig) (sound : cfg.Sound) (es es' : List Event)
    (same : es.filterMap Event.received = es'.filterMap Event.received) :
    ∃ s rs t qs, run step (create cfg) es = .ok (s, rs) ∧ run step (create cfg) es' = .ok (t, qs) ∧
      t.reassembler = s.reassembler ∧ t.sequences = s.sequences ∧ messages qs = messages rs ∧
      t.tally = s.tally ∧ ∀ k, t.reception k = s.reception k := by
  obtain ⟨s, rs, ran, _⟩ := run_ok sound es (sane_create cfg)
  obtain ⟨t, qs, ran', _⟩ := run_ok sound es' (sane_create cfg)
  obtain ⟨received, tally⟩ := received_of_run sound ran
  obtain ⟨received', tally'⟩ := received_of_run sound ran'
  rw [same, received'] at received
  obtain ⟨front, heard⟩ := Prod.mk.inj (Except.ok.inj received)
  refine ⟨s, rs, t, qs, ran, ran', congrArg Front.reassembler front, congrArg Front.sequences front, ?_, ?_, ?_⟩
  · rw [← messages_heard, heard, messages_heard]
  · rw [tally', heard, ← tally]
  · intro k
    rw [reception_of_run sound (sane_create cfg) ran', reception_of_run sound (sane_create cfg) ran,
      ← reception_heard k qs, ← reception_heard k rs, heard]

/-- With recording on and its first write failing, and with recording off. -/
theorem recording_never_affects_reception_empty : ∃ s rs t qs,
    run step (create {}) [.init {}, .datagram emptyMessage 0 { fwriteHeader := some ⟨0, []⟩ }] = .ok (s, rs) ∧
    run step (create {}) [.command (str "record off") {}, .datagram emptyMessage 0 {}] = .ok (t, qs) ∧
    t.reassembler = s.reassembler ∧ t.sequences = s.sequences ∧ messages qs = messages rs ∧
    t.tally = s.tally ∧ ∀ k, t.reception k = s.reception k :=
  recording_never_affects_reception {} ReceiverConfig.default_sound _ _ rfl

end Run

end Receiver

end IpcRelay
