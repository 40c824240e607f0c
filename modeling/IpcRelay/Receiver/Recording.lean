import IpcRelay.Receiver.ReceiverFacts

/-!
# Recording and the capture writer

The receiver calls the capture writer from five places. `captureCall` says which
call an event makes, `CaptureStep` how the call ended and what the receiver made
of it: the writer, the recording flag and the error counter are all it touches.
The flag is honest and every failure is counted exactly as long as no open, no
flush outside `record off` and no shutdown goes wrong while recording
(`recording_honest_iff`); reception does not depend on any of it.
-/

namespace IpcRelay

open Wire Capture Machine Reassembler

namespace Receiver

/-- What the text of a command asks for. -/
inductive Command where
  | record (enabled : Bool)
  | toggle
  | flush
  | stats
  | unknown
  deriving DecidableEq, Repr

/-- The command that a text is recognised as. -/
def commandOf (raw : Bytes) : Command :=
  if normalizeCommand raw ∈ recordOnCommands then .record true
  else if normalizeCommand raw ∈ recordOffCommands then .record false
  else if normalizeCommand raw = str "record toggle" then .toggle
  else if normalizeCommand raw = str "flush" then .flush
  else if normalizeCommand raw = str "stats" ∨ normalizeCommand raw = str "status" then .stats
  else .unknown

/-- A call of the capture writer. -/
inductive CaptureCall where
  | openFile
  | writeRecord (m : CompletedMessage)
  | flush (sync : Bool)
  | close
  deriving DecidableEq

/-- The outcomes of the stdio calls that an event meets. -/
def Event.io : Event → Stdio
  | .init io => io
  | .datagram _ _ io => io
  | .sweep _ => {}
  | .command _ io => io
  | .flush io => io
  | .close io => io

/-- The argument that `set_recording` is called with. -/
def asked (s : Receiver) : Event → Option Bool
  | .init _ => if s.cfg.recordOnStart then some true else none
  | .command raw _ =>
    match commandOf raw with
    | .record enabled => some enabled
    | .toggle => some !s.recording
    | _ => none
  | _ => none

/-- The argument of the `flush` that the command of this name and the poll loop call. -/
def flushAsked (s : Receiver) : Event → Option Bool
  | .command raw _ => if commandOf raw = .flush ∧ s.writer.isOpen then some true else none
  | .flush _ => if s.writer.isOpen ∧ ¬ s.writer.failed then some s.cfg.captureSyncOnFlush else none
  | _ => none

/-- The call of the capture writer that an event makes. -/
def captureCall (s : Receiver) (e : Event) (r : Reaction) : Option CaptureCall :=
  match s.asked e with
  | some true => if s.writer.failed ∨ s.writer.isOpen then none else some .openFile
  | some false => if s.recording ∧ s.writer.isOpen then some (.flush true) else none
  | none =>
    match s.flushAsked e with
    | some sync => some (.flush sync)
    | none =>
      match e with
      | .datagram .. =>
        if s.recording ∧ s.writer.isOpen ∧ ¬ s.writer.failed then r.message.map .writeRecord else none
      | .close _ => if s.writer.isOpen then some .close else none
      | _ => none

/-- The record header that `on_complete` fills in. -/
def recordHeader (m : CompletedMessage) : RecordHeader :=
  { sourceId := m.sourceId, sequence := m.sequence, timestampNs := m.timestampNs, flags := m.flags }

/-- What a call of the capture writer returns. -/
def CaptureCall.answer (c : CaptureCall) (s : Receiver) (io : Stdio) : Exec (CaptureWriter × Bool) :=
  match c with
  | .openFile => .ok (s.writer.openFile s.cfg.captureFile kVersion io)
  | .writeRecord m => s.writer.writeRecord (recordHeader m) m.data m.length io
  | .flush sync => .ok (s.writer.flush sync io)
  | .close => .ok (s.writer.close io)

/-- The call that an event makes and whether it succeeded. -/
def captured (s : Receiver) (e : Event) (r : Reaction) : List (CaptureCall × Bool) :=
  match s.captureCall e r with
  | none => []
  | some c =>
    match c.answer s e.io with
    | .ok (_, ok) => [(c, ok)]
    | .error _ => []

/-- The part of the receiver that recording touches. -/
structure CaptureSide where
  writer : CaptureWriter
  recording : Bool
  writeErrors : Nat

def captureSide (s : Receiver) : CaptureSide := ⟨s.writer, s.recording, s.stats.writeErrors⟩

/-- What an event does to the capture side: the call, and how the receiver answers its result. -/
inductive CaptureStep (s : Receiver) (r : Reaction) : Event → List (CaptureCall × Bool) → CaptureSide → Prop
  | idle {e : Event} (noOpen : s.asked e = some true → s.writer.failed = true) (noStop : s.asked e ≠ some false)
      (noFlush : s.flushAsked e = none) (noClose : ∀ io, e = .close io → s.writer.isOpen = false) :
      CaptureStep s r e [] s.captureSide
  | enabled {e : Event} (on : s.asked e = some true) (working : s.writer.failed = false)
      (isOpen : s.writer.isOpen = true) : CaptureStep s r e [] { s.captureSide with recording := true }
  | opened {e : Event} {w : CaptureWriter} {ok : Bool} (on : s.asked e = some true)
      (working : s.writer.failed = false) (closed : s.writer.isOpen = false)
      (c : s.writer.OpenCase s.cfg.captureFile kVersion e.io w ok) :
      CaptureStep s r e [(.openFile, ok)] { s.captureSide with writer := w, recording := s.recording || ok }
  | stopped {e : Event} (off : s.asked e = some false) (nothing : ¬ (s.recording = true ∧ s.writer.isOpen = true)) :
      CaptureStep s r e [] { s.captureSide with recording := false }
  | stoppedFlush {e : Event} {w : CaptureWriter} {ok : Bool} (off : s.asked e = some false)
      (recording : s.recording = true) (isOpen : s.writer.isOpen = true) (c : s.writer.FlushCase true e.io w ok) :
      CaptureStep s r e [(.flush true, ok)] ⟨w, false, s.stats.writeErrors + (!ok).toNat⟩
  | flushed {e : Event} {sync : Bool} {w : CaptureWriter} {ok : Bool} (flush : s.flushAsked e = some sync)
      (isOpen : s.writer.isOpen = true) (c : s.writer.FlushCase sync e.io w ok) :
      CaptureStep s r e [(.flush sync, ok)] ⟨w, s.recording, s.stats.writeErrors + (!ok).toNat⟩
  | recorded {data : Bytes} {now : UInt64} {io : Stdio} {m : CompletedMessage} {w : CaptureWriter} {ok : Bool}
      (message : r.message = some m) (recording : s.recording = true) (isOpen : s.writer.isOpen = true)
      (working : s.writer.failed = false) (fits : m.length ≤ m.data.length) (short : m.length < 2 ^ 32)
      (c : s.writer.WriteCase (recordBytes (recordHeader m) (m.data.take m.length)) w ok) :
      CaptureStep s r (.datagram data now io) [(.writeRecord m, ok)] ⟨w, ok, s.stats.writeErrors + (!ok).toNat⟩
  | closed {io : Stdio} {w : CaptureWriter} {ok : Bool} (isOpen : s.writer.isOpen = true)
      (c : s.writer.CloseCase w ok) :
      CaptureStep s r (.close io) [(.close, ok)] ⟨w, s.recording, s.stats.writeErrors + (!ok).toNat⟩

section Step

variable {s s' : Receiver} {io : Stdio} {r : Reaction}

theorem handleCommand_eq (s : Receiver) (raw : Bytes) (io : Stdio) :
    ∃ t : Receiver, t.captureSide = s.captureSide ∧ t.cfg = s.cfg ∧
      s.handleCommand raw io = match commandOf raw with
        | .record enabled => t.setRecording enabled io
        | .toggle => t.setRecording (!s.recording) io
        | .flush =>
          if s.writer.isOpen then
            match s.writer.flush true io with
            | (w, false) => ((countWriteError { t with writer := w }).refreshCaptureStats, false)
            | (w, true) => ({ t with writer := w }, true)
          else (t, true)
        | .stats => (t, true)
        | .unknown => (t, false) := by
  refine ⟨{ s with stats := { s.stats with commands := s.stats.commands + 1 } }, rfl, rfl, ?_⟩
  unfold handleCommand commandOf
  dsimp only
  split_ifs <;> rfl

/-- `set_recording`, entered with the writer, the flag and the error counter of `s`. -/
theorem setRecording_step {e : Event} {t : Receiver} (side : t.captureSide = s.captureSide) (cfg : t.cfg = s.cfg)
    {enabled : Bool} (asked : s.asked e = some enabled) (noFlush : s.flushAsked e = none)
    (noClose : ∀ io, e ≠ .close io) :
    CaptureStep s r e (s.captured e r) (t.setRecording enabled e.io).1.captureSide := by
  obtain ⟨writer, recording, errors⟩ : t.writer = s.writer ∧ t.recording = s.recording ∧
      t.stats.writeErrors = s.stats.writeErrors := by simpa [captureSide] using side
  unfold captured captureCall
  cases enabled with
  | true =>
    rw [asked]
    dsimp only
    unfold setRecording
    rw [if_pos rfl, writer, cfg]
    cases failed : s.writer.failed with
    | true =>
      simp only [true_or, if_true]
      rw [side]
      exact .idle (fun _ => failed) (by simp [asked]) noFlush fun io h => absurd h (noClose io)
    | false =>
      cases isOpen : s.writer.isOpen with
      | true =>
        have case : CaptureStep s r e [] _ := .enabled asked failed isOpen
        simpa [captureSide, refreshCaptureStats, writer, recording, errors] using case
      | false =>
        have c := CaptureWriter.openFile_cases isOpen s.cfg.captureFile kVersion e.io
        rcases answer : s.writer.openFile s.cfg.captureFile kVersion e.io with ⟨w, ok⟩
        rw [answer] at c
        have case : CaptureStep s r e [(.openFile, ok)] _ := .opened asked failed isOpen c
        cases ok with
        | true => simpa [captureSide, refreshCaptureStats, CaptureCall.answer, answer, recording, errors] using case
        | false => simpa [captureSide, refreshCaptureStats, CaptureCall.answer, answer, recording, errors] using case
  | false =>
    rw [asked]
    dsimp only
    unfold setRecording
    rw [if_neg Bool.false_ne_true, writer, recording]
    by_cases both : s.recording = true ∧ s.writer.isOpen = true
    · have c := CaptureWriter.flush_cases both.2 true e.io
      rcases answer : s.writer.flush true e.io with ⟨w, ok⟩
      rw [answer] at c
      have case : CaptureStep s r e [(.flush true, ok)] _ := .stoppedFlush asked both.1 both.2 c
      rw [if_pos both, if_pos both]
      cases ok with
      | true => simpa [captureSide, refreshCaptureStats, CaptureCall.answer, answer, errors] using case
      | false =>
        simpa [captureSide, refreshCaptureStats, countWriteError, CaptureCall.answer, answer, errors] using case
    · have case : CaptureStep s r e [] _ := .stopped asked both
      rw [if_neg both, if_neg both]
      simpa [captureSide, refreshCaptureStats, writer, errors] using case

theorem handleCommand_step (s : Receiver) (raw : Bytes) (io : Stdio) :
    CaptureStep s r (.command raw io) (s.captured (.command raw io) r) (s.handleCommand raw io).1.captureSide := by
  obtain ⟨t, side, cfg, eq⟩ := handleCommand_eq s raw io
  obtain ⟨writer, recording, errors⟩ : t.writer = s.writer ∧ t.recording = s.recording ∧
      t.stats.writeErrors = s.stats.writeErrors := by simpa [captureSide] using side
  rw [eq]
  -- a command that is not recognised does not reach the writer
  have idle : s.asked (.command raw io) = none → s.flushAsked (.command raw io) = none →
      CaptureStep s r (.command raw io) (s.captured (.command raw io) r) t.captureSide := by
    intro notAsked noFlush
    rw [side]
    unfold captured captureCall
    rw [notAsked, noFlush]
    exact .idle (by simp [notAsked]) (by simp [notAsked]) noFlush (by simp)
  cases command : commandOf raw with
  | record enabled =>
    exact setRecording_step side cfg (by simp [asked, command]) (by simp [flushAsked, command]) (by simp)
  | toggle => exact setRecording_step side cfg (by simp [asked, command]) (by simp [flushAsked, command]) (by simp)
  | flush =>
    dsimp only
    by_cases isOpen : s.writer.isOpen = true
    · have flush : s.flushAsked (.command raw io) = some true := by simp [flushAsked, command, isOpen]
      have notAsked : s.asked (.command raw io) = none := by simp [asked, command]
      have c := CaptureWriter.flush_cases isOpen true io
      rcases answer : s.writer.flush true io with ⟨w, ok⟩
      rw [answer] at c
      have case : CaptureStep s r (.command raw io) [(.flush true, ok)] _ := .flushed flush isOpen c
      unfold captured captureCall
      rw [if_pos isOpen, notAsked, flush]
      cases ok with
      | true => simpa [captureSide, CaptureCall.answer, Event.io, isOpen, answer, recording, errors] using case
      | false =>
        simpa [captureSide, refreshCaptureStats, countWriteError, CaptureCall.answer, Event.io, isOpen, answer,
          recording, errors] using case
    · rw [if_neg isOpen]
      exact idle (by simp [asked, command]) (by simp [flushAsked, command, isOpen])
  | stats => exact idle (by simp [asked, command]) (by simp [flushAsked, command])
  | unknown => exact idle (by simp [asked, command]) (by simp [flushAsked, command])

theorem init_step (s : Receiver) (io : Stdio) :
    CaptureStep s r (.init io) (s.captured (.init io) r) (s.init io).1.captureSide := by
  unfold init
  by_cases start : s.cfg.recordOnStart = true
  · rw [if_pos start]
    exact setRecording_step rfl rfl (by simp [asked, start]) rfl (by simp)
  · have notAsked : s.asked (.init io) = none := by simp [asked, start]
    unfold captured captureCall
    rw [if_neg start, notAsked]
    exact .idle (by simp [notAsked]) (by simp [notAsked]) rfl (by simp)

theorem pollFlush_step (s : Receiver) (io : Stdio) :
    CaptureStep s r (.flush io) (s.captured (.flush io) r) (s.pollFlush io).1.captureSide := by
  have notAsked : s.asked (.flush io) = none := rfl
  unfold pollFlush captured captureCall
  rw [notAsked]
  by_cases working : s.writer.isOpen = true ∧ ¬ s.writer.failed = true
  · have flush : s.flushAsked (.flush io) = some s.cfg.captureSyncOnFlush := if_pos working
    have c := CaptureWriter.flush_cases working.1 s.cfg.captureSyncOnFlush io
    rcases answer : s.writer.flush s.cfg.captureSyncOnFlush io with ⟨w, ok⟩
    rw [answer] at c
    have case : CaptureStep s r (.flush io) [(.flush s.cfg.captureSyncOnFlush, ok)] _ := .flushed flush working.1 c
    rw [if_pos working, flush]
    cases ok with
    | true => simpa [captureSide, CaptureCall.answer, Event.io, answer] using case
    | false => simpa [captureSide, countWriteError, CaptureCall.answer, Event.io, answer] using case
  · have noFlush : s.flushAsked (.flush io) = none := if_neg working
    rw [if_neg working, noFlush]
    exact .idle (by simp [notAsked]) (by simp [notAsked]) noFlush (by simp)

theorem shutdown_step (s : Receiver) (io : Stdio) :
    CaptureStep s r (.close io) (s.captured (.close io) r) (s.shutdown io).1.captureSide := by
  have notAsked : s.asked (.close io) = none := rfl
  have noFlush : s.flushAsked (.close io) = none := rfl
  unfold shutdown captured captureCall
  rw [notAsked, noFlush]
  dsimp only
  by_cases isOpen : s.writer.isOpen = true
  · have c := CaptureWriter.close_cases isOpen io
    rcases answer : s.writer.close io with ⟨w, ok⟩
    rw [answer] at c
    have case : CaptureStep s r (.close io) [(.close, ok)] _ := .closed isOpen c
    rw [if_pos isOpen, if_pos isOpen]
    cases ok with
    | true => simpa [captureSide, CaptureCall.answer, Event.io, answer] using case
    | false => simpa [captureSide, countWriteError, CaptureCall.answer, Event.io, answer] using case
  · rw [if_neg isOpen, if_neg isOpen]
    exact .idle (by simp [notAsked]) (by simp [notAsked]) noFlush fun _ _ => by simpa using isOpen

/-- A datagram reaches the writer through the message that it completes. -/
theorem onComplete_step {m : CompletedMessage} {data : Bytes} {now : UInt64} {t : Receiver}
    (side : t.captureSide = s.captureSide) (message : r.message = some m) (fits : m.length ≤ m.data.length)
    (short : m.length < 2 ^ 32) (done : t.onComplete m io = .ok s') :
    CaptureStep s r (.datagram data now io) (s.captured (.datagram data now io) r) s'.captureSide := by
  obtain ⟨writer, recording, errors⟩ : t.writer = s.writer ∧ t.recording = s.recording ∧
      t.stats.writeErrors = s.stats.writeErrors := by simpa [captureSide] using side
  have notAsked : s.asked (.datagram data now io) = none := rfl
  have noFlush : s.flushAsked (.datagram data now io) = none := rfl
  unfold captured captureCall
  rw [notAsked, noFlush, message]
  unfold onComplete at done
  have same : (t.countMessage m).writer = s.writer ∧ (t.countMessage m).recording = s.recording := ⟨writer, recording⟩
  dsimp only at done ⊢
  rw [same.1, same.2] at done
  by_cases ready : s.recording = true ∧ s.writer.isOpen = true ∧ ¬ s.writer.failed = true
  · obtain ⟨on, isOpen, working⟩ := ready
    obtain ⟨w, ok, answer, c⟩ := CaptureWriter.writeRecord_cases isOpen (by simpa using working) (recordHeader m) fits io
    rw [if_neg (by simp [on, isOpen, working])] at done
    have case : CaptureStep s r (.datagram data now io) [(.writeRecord m, ok)] _ :=
      .recorded message on isOpen (by simpa using working) fits short c
    rw [if_pos ⟨on, isOpen, working⟩]
    simp only [Option.map_some, CaptureCall.answer, Event.io, answer]
    rw [← recordHeader, answer] at done
    cases ok with
    | true =>
      obtain rfl := Except.ok.inj done
      simpa [captureSide, countMessage, ReceiverStats.source, recording, errors, on] using case
    | false =>
      obtain rfl := Except.ok.inj done
      simpa [captureSide, countMessage, ReceiverStats.source, refreshCaptureStats, countWriteError, errors] using case
  · rw [if_pos (by tauto)] at done
    obtain rfl := Except.ok.inj done
    have case : CaptureStep s r (.datagram data now io) [] s.captureSide :=
      .idle (by simp [notAsked]) (by simp [notAsked]) noFlush (by simp)
    rw [if_neg ready]
    simpa [captureSide, countMessage, ReceiverStats.source, errors] using case

/-- Nothing else in the handling of a datagram or of a sweep reaches the writer. -/
theorem captureSide_noteMalformed (s : Receiver) (reason : Bytes) (source : Option UInt32) :
    (s.noteMalformed reason source).captureSide = s.captureSide := by
  unfold noteMalformed
  cases source <;> rfl

theorem captureSide_noteSequence (s : Receiver) (id : UInt32) (seq : Option (SequenceTracker.Outcome × UInt64)) :
    (s.noteSequence id seq).captureSide = s.captureSide := by
  unfold noteSequence
  split <;> rfl

theorem captureSide_sweep (s : Receiver) (now : UInt64) : (s.sweepReassembly now).1.captureSide = s.captureSide := by
  have all : ∀ (es : List ExpiredMessage) (t : Receiver), (es.foldl noteExpired t).captureSide = t.captureSide := by
    intro es
    induction es with
    | nil => exact fun t => rfl
    | cons e es ih => exact fun t => (ih (t.noteExpired e)).trans rfl
  unfold sweepReassembly
  rw [all]
  rfl

theorem captured_quiet {e : Event} (notAsked : s.asked e = none) (noFlush : s.flushAsked e = none)
    (message : r.message = none) (noClose : ∀ io, e ≠ .close io) : CaptureStep s r e (s.captured e r) s.captureSide := by
  have case : CaptureStep s r e [] s.captureSide :=
    .idle (by simp [notAsked]) (by simp [notAsked]) noFlush fun io h => absurd h (noClose io)
  have uncalled : s.captureCall e r = none := by
    unfold captureCall
    rw [notAsked, noFlush, message]
    cases e <;> simp_all
  rw [captured, uncalled]
  exact case

/-- What the handling of an accepted datagram goes through. -/
theorem handleDatagram_inv {f : Fragment} {now : UInt64} (done : s.handleDatagram f.datagram now io = .ok (s', r)) :
    ∃ u o, add s.cfg.reassemblerConfig s.reassembler f.hdr f.payload now = .ok (u, o) ∧
      r = .added f.hdr o (observeNew s.sequences f.hdr o.newMessage).2 ∧
      (((s.countDatagram f.hdr.sourceId f.datagram.length).advance u
        (observeNew s.sequences f.hdr o.newMessage).1).noteSequence f.hdr.sourceId
        (observeNew s.sequences f.hdr o.newMessage).2).settle f.hdr o io = .ok s' := by
  have cfg : (s.countDatagram f.hdr.sourceId f.datagram.length).cfg = s.cfg := rfl
  have reassembler : (s.countDatagram f.hdr.sourceId f.datagram.length).reassembler = s.reassembler := rfl
  have sequences : (s.countDatagram f.hdr.sourceId f.datagram.length).sequences = s.sequences := rfl
  simp only [handleDatagram, f.accepted, bind, Except.bind, ne_eq, not_true_eq_false, if_false, Option.getD_some,
    cfg, reassembler, sequences] at done
  cases added : add s.cfg.reassemblerConfig s.reassembler f.hdr f.payload now with
  | error => rw [added] at done; cases done
  | ok result =>
    obtain ⟨u, o⟩ := result
    rw [added] at done
    dsimp only at done
    cases settled : (((s.countDatagram f.hdr.sourceId f.datagram.length).advance u
        (observeNew s.sequences f.hdr o.newMessage).1).noteSequence f.hdr.sourceId
        (observeNew s.sequences f.hdr o.newMessage).2).settle f.hdr o io with
    | error => rw [settled] at done; cases done
    | ok t =>
      rw [settled] at done
      cases done
      exact ⟨u, o, rfl, rfl, settled⟩

theorem handleDatagram_step (inv : Inv s.cfg.reassemblerConfig s.reassembler)
    (pos : 0 < s.cfg.reassemblerConfig.maxPending) {data : Bytes} {now : UInt64}
    (done : s.handleDatagram data now io = .ok (s', r)) :
    CaptureStep s r (.datagram data now io) (s.captured (.datagram data now io) r) s'.captureSide := by
  rcases Fragment.accepted_or_rejected data with ⟨f, rfl⟩ | ⟨p, parse, bad⟩
  · obtain ⟨u, o, added, rfl, settled⟩ := handleDatagram_inv done
    obtain ⟨u', o', added', c⟩ := add_cases inv pos f now
    rw [added] at added'
    cases added'
    have out := c.out_ok
    have side := captureSide_noteSequence ((s.countDatagram f.hdr.sourceId f.datagram.length).advance u
      (observeNew s.sequences f.hdr o.newMessage).1) f.hdr.sourceId (observeNew s.sequences f.hdr o.newMessage).2
    have reached := side.trans (show _ = s.captureSide from rfl)
    unfold settle at settled
    cases result : o.result with
    | complete =>
      rw [result] at settled
      exact onComplete_step reached (by simp [Reaction.message, result]) (out result).2 (c.out_short inv) settled
    | incomplete =>
      rw [result] at settled
      obtain rfl := Except.ok.inj settled
      rw [reached]
      exact captured_quiet rfl rfl (by simp [Reaction.message, result]) (by simp)
    | duplicate =>
      rw [result] at settled
      obtain rfl := Except.ok.inj settled
      rw [show (countDuplicate _ f.hdr.sourceId).captureSide = s.captureSide from reached]
      exact captured_quiet rfl rfl (by simp [Reaction.message, result]) (by simp)
    | malformed =>
      rw [result] at settled
      obtain rfl := Except.ok.inj settled
      rw [captureSide_noteMalformed, reached]
      exact captured_quiet rfl rfl (by simp [Reaction.message, result]) (by simp)
  · simp only [handleDatagram, parse, bind, Except.bind, bad, ne_eq, not_false_eq_true, if_true] at done
    cases done
    rw [captureSide_noteMalformed]
    exact captured_quiet rfl rfl rfl (by simp)

/-- Every step of a receiver in a reachable state is such a step of its capture side. -/
theorem captureStep_of_step (inv : Inv s.cfg.reassemblerConfig s.reassembler)
    (pos : 0 < s.cfg.reassemblerConfig.maxPending) {e : Event} (one : step s e = .ok (s', r)) :
    CaptureStep s r e (s.captured e r) s'.captureSide := by
  cases e with
  | init io => cases one; exact init_step s io
  | datagram data now io => exact handleDatagram_step inv pos one
  | sweep now =>
    have eq := Except.ok.inj one
    have after : s' = (s.sweepReassembly now).1 := (congrArg Prod.fst eq).symm
    have told : r = .swept (s.sweepReassembly now).2 := (congrArg Prod.snd eq).symm
    rw [after, captureSide_sweep]
    exact captured_quiet rfl rfl (by rw [told]; rfl) (by simp)
  | command raw io => cases one; exact handleCommand_step s raw io
  | flush io => cases one; exact pollFlush_step s io
  | close io => cases one; exact shutdown_step s io

end Step

section Honest

variable {s s' : Receiver} {e : Event} {r : Reaction}

/-- The recording flag is true only if the writer is open and has not failed. -/
def Honest (recording : Bool) (w : CaptureWriter) : Prop := recording = true → w.isOpen = true ∧ w.failed = false

/-- The calls that reported a failure. -/
def failures (calls : List (CaptureCall × Bool)) : Nat := calls.countP fun c => !c.2

/-- The calls of the capture writer that a run makes. -/
def captureCalls (cfg : ReceiverConfig) (es : List Event) : List (CaptureCall × Bool) :=
  collect step captured (create cfg) es

/-- Nothing goes wrong in a place where the receiver does not handle it: an open, a flush
by command or by the poll loop while recording, the end of the program while recording. -/
structure Handled (s : Receiver) (e : Event) : Prop where
  opens : s.asked e = some true → s.writer.isOpen = false → s.writer.failed = false → CaptureWriter.Opens e.io
  flushes : ∀ sync, s.flushAsked e = some sync → s.recording = true → CaptureWriter.Flushes sync e.io
  closes : ∀ io, e = .close io → s.writer.isOpen = true → s.recording = false

theorem asked_excludes {enabled : Bool} (asked : s.asked e = some enabled) :
    s.flushAsked e = none ∧ ∀ io, e ≠ .close io := by
  cases e with
  | command raw io =>
    refine ⟨?_, by simp⟩
    cases command : commandOf raw <;> simp_all [Receiver.asked, flushAsked]
  | init => exact ⟨rfl, by simp⟩
  | datagram => cases asked
  | sweep => cases asked
  | flush => cases asked
  | close => cases asked

theorem flushAsked_excludes {sync : Bool} (flush : s.flushAsked e = some sync) :
    s.asked e = none ∧ ∀ io, e ≠ .close io := by
  cases asked : s.asked e with
  | some enabled => rw [(asked_excludes asked).1] at flush; cases flush
  | none => exact ⟨rfl, by rintro io rfl; cases flush⟩

theorem Handled.of_asked {enabled : Bool} (asked : s.asked e = some enabled)
    (opens : enabled = true → s.writer.isOpen = false → s.writer.failed = false → CaptureWriter.Opens e.io) :
    s.Handled e where
  opens on := by
    rw [asked] at on
    exact opens (Option.some.inj on)
  flushes sync flush := by rw [(asked_excludes asked).1] at flush; cases flush
  closes io close := absurd close ((asked_excludes asked).2 io)

/-- One step keeps the flag honest and the counter exact just when its failures are handled. -/
theorem CaptureStep.honest_iff {calls : List (CaptureCall × Bool)} {side : CaptureSide}
    (honest : Honest s.recording s.writer) (c : CaptureStep s r e calls side) :
    Honest side.recording side.writer ∧ side.writeErrors = s.stats.writeErrors + failures calls ↔ s.Handled e := by
  cases c with
  | idle noOpen noStop noFlush noClose =>
    refine iff_of_true ⟨honest, rfl⟩ ⟨?_, ?_, ?_⟩
    · intro on _ working
      rw [noOpen on] at working
      cases working
    · intro sync flush
      rw [noFlush] at flush
      cases flush
    · intro io close isOpen
      rw [noClose io close] at isOpen
      cases isOpen
  | enabled on working isOpen =>
    refine iff_of_true ⟨fun _ => ⟨isOpen, working⟩, rfl⟩ (.of_asked on fun _ closed => ?_)
    rw [isOpen] at closed
    cases closed
  | opened on working closed c =>
    have off : s.recording = false := by
      by_contra recording
      have := (honest (by simpa using recording)).1
      rw [closed] at this
      cases this
    cases c with
    | opened good => exact iff_of_true ⟨fun _ => ⟨rfl, rfl⟩, rfl⟩ (.of_asked on fun _ _ _ => good)
    | refused bad =>
      refine iff_of_false ?_ fun handled => bad (handled.opens on closed working)
      rintro ⟨-, counted⟩
      simp [captureSide, failures] at counted
    | short bad =>
      refine iff_of_false ?_ fun handled => bad (handled.opens on closed working)
      rintro ⟨-, counted⟩
      simp [captureSide, failures] at counted
  | stopped off => exact iff_of_true ⟨Bool.noConfusion, rfl⟩ (.of_asked off Bool.noConfusion)
  | stoppedFlush off _ _ c =>
    refine iff_of_true ⟨Bool.noConfusion, ?_⟩ (.of_asked off Bool.noConfusion)
    cases c <;> rfl
  | flushed flush isOpen c =>
    obtain ⟨notAsked, noClose⟩ := flushAsked_excludes flush
    cases c with
    | flushed good =>
      refine iff_of_true ⟨honest, rfl⟩ ⟨by simp [notAsked], ?_, fun io close => absurd close (noClose io)⟩
      intro sync' flush' _
      rw [flush] at flush'
      cases flush'
      exact good
    | failed bad =>
      -- the writer has failed: the flag is honest only if it was off
      constructor
      · rintro ⟨still, -⟩
        refine ⟨by simp [notAsked], ?_, fun io close => absurd close (noClose io)⟩
        intro _ _ recording
        cases (still recording).2
      · intro handled
        refine ⟨fun recording => absurd (handled.flushes _ flush recording) bad, rfl⟩
  | recorded _ _ isOpen working _ _ c =>
    refine iff_of_true ?_ ⟨nofun, nofun, nofun⟩
    cases c with
    | short => exact ⟨Bool.noConfusion, rfl⟩
    | written => exact ⟨fun _ => ⟨isOpen, working⟩, rfl⟩
  | closed isOpen c =>
    constructor
    · rintro ⟨still, -⟩
      refine ⟨nofun, nofun, ?_⟩
      intro io _ _
      by_contra recording
      have := (still (by simpa using recording)).1
      cases c <;> cases this
    · intro handled
      refine ⟨?_, by cases c <;> rfl⟩
      intro recording
      rw [handled.closes _ rfl isOpen] at recording
      cases recording

variable {cfg : ReceiverConfig}

theorem captureCalls_snoc {es : List Event} {u t : Receiver} {us : List Reaction}
    (ran : run step (create cfg) es = .ok (u, us)) (one : step u e = .ok (t, r)) :
    captureCalls cfg (es ++ [e]) = captureCalls cfg es ++ u.captured e r := collect_snoc ran one

/-- In every run: the recording flag is true only if the writer is open and has not failed and
`write_errors` is the number of failed calls, at every point of the run, just when every step
of the run is handled. -/
theorem recording_honest_iff (cfg : ReceiverConfig) (sound : cfg.Sound) (es : List Event) :
    (∀ pre s rs, pre <+: es → run step (create cfg) pre = .ok (s, rs) →
      Honest s.recording s.writer ∧ s.stats.writeErrors = failures (captureCalls cfg pre)) ↔
    Throughout step (create cfg) Handled es := by
  induction es using List.reverseRecOn with
  | nil =>
    refine iff_of_true ?_ throughout_nil
    intro pre s rs front ran
    obtain rfl := List.prefix_nil.1 front
    cases ran
    exact ⟨Bool.noConfusion, rfl⟩
  | append_singleton es e ih =>
    obtain ⟨u, us, ran, sane⟩ := run_ok sound es (sane_create cfg)
    obtain ⟨t, ts, all, _⟩ := run_ok sound [e] sane
    obtain ⟨t', r, _, one, last, rfl⟩ := run_cons.1 all
    cases last
    have inv : Inv u.cfg.reassemblerConfig u.reassembler := by rw [sane.ofCfg]; exact sane.inv
    have pos : 0 < u.cfg.reassemblerConfig.maxPending := by rw [sane.ofCfg]; exact sound.maxPending_pos
    have c := captureStep_of_step inv pos one
    have calls := captureCalls_snoc ran one
    have split : failures (captureCalls cfg (es ++ [e])) = failures (captureCalls cfg es) + failures (u.captured e r) := by
      rw [calls, failures, List.countP_append]
      rfl
    have whole : run step (create cfg) (es ++ [e]) = .ok (t, us ++ [r]) := run_snoc.2 ⟨u, us, r, ran, one, rfl⟩
    rw [throughout_snoc ran]
    constructor
    · intro all
      have before := fun pre s rs front => all pre s rs (List.IsPrefix.trans front (List.prefix_append es [e]))
      obtain ⟨honest, counted⟩ := before es u us (List.prefix_refl _) ran
      refine ⟨ih.1 before, (c.honest_iff honest).1 ?_⟩
      obtain ⟨honest', counted'⟩ := all _ t _ (List.prefix_refl _) whole
      refine ⟨honest', ?_⟩
      rw [counted, ← split]
      exact counted'
    · rintro ⟨before, handled⟩ pre s rs front ranPre
      rcases List.prefix_concat_iff.1 front with rfl | earlier
      · obtain ⟨honest, counted⟩ := ih.2 before es u us (List.prefix_refl _) ran
        rw [whole] at ranPre
        cases ranPre
        obtain ⟨honest', counted'⟩ := (c.honest_iff honest).2 handled
        refine ⟨honest', ?_⟩
        rw [split, ← counted]
        exact counted'
      · exact ih.2 before pre s rs earlier ranPre

/-- An empty message in one datagram. -/
def emptyMessage : Bytes := encodeHeader { fragmentCount := 1 }

/-- A close may fail once recording has been switched off. -/
def tidyRun : List Event :=
  [.init {}, .command (str "record off") {}, .close { fclose := some (str "EIO") }]

theorem recording_honest_tidyRun : (∀ pre s rs, pre <+: tidyRun → run step (create {}) pre = .ok (s, rs) →
      Honest s.recording s.writer ∧ s.stats.writeErrors = failures (captureCalls {} pre)) ↔
    Throughout step (create {}) Handled tidyRun :=
  recording_honest_iff {} ReceiverConfig.default_sound _

/-- It is false without the condition: a periodic flush fails and the receiver stays recording. -/
theorem failed_flush_keeps_recording :
    ¬ ∀ (cfg : ReceiverConfig) (es : List Event) (s : Receiver) (rs : List Reaction), cfg.Sound →
      run step (create cfg) es = .ok (s, rs) →
      Honest s.recording s.writer ∧ s.stats.writeErrors = failures (captureCalls cfg es) := by
  intro always
  let es : List Event := [.init {}, .flush { fflush := some (str "ENOSPC") }]
  obtain ⟨s, rs, ran, _⟩ := run_ok ReceiverConfig.default_sound es (sane_create {})
  have facts : ((run step (create {}) es).toOption.map fun r => (r.1.recording, r.1.writer.failed)) =
      some (true, true) := by
    decide +kernel
  rw [ran] at facts
  simp only [Except.toOption, Option.map_some, Option.some.injEq, Prod.mk.injEq] at facts
  have honest := ((always {} es s rs ReceiverConfig.default_sound ran).1 facts.1).2
  rw [facts.2] at honest
  cases honest

/-- A failed open is not counted. -/
example : ((run step (create {}) [.init { fopen := some (str "EACCES") }]).toOption.map fun r =>
    (r.1.stats.writeErrors, failures (captureCalls {} [.init { fopen := some (str "EACCES") }]))) = some (0, 1) := by
  decide +kernel

end Honest

end Receiver

end IpcRelay
