import IpcRelay.Receiver.CaptureWriter
import IpcRelay.Receiver.ReceiverConfig
import IpcRelay.Receiver.SequenceTracker

/-!
# The receiver (`receiver.hpp`, `receiver.cpp`, `receiver_stats.hpp`)

The receiver as a machine: `Event` are the calls that the poll loop, the
command socket and the program's start and end make, each with the clock
reading and the outcomes of the stdio calls it meets, and `Reaction` is what
became of it. Counters are natural numbers, except `missing`, whose sum is not
bounded by the length of a run.
-/

namespace IpcRelay

open Wire Capture

structure ReceiverSourceStats where
  datagrams : Nat := 0
  messages : Nat := 0
  payloadBytes : Nat := 0
  gapEvents : Nat := 0
  missing : UInt64 := 0
  outOfOrder : Nat := 0
  incomplete : Nat := 0
  duplicates : Nat := 0
  malformed : Nat := 0
  recordsWritten : Nat := 0
  lastSequence : UInt64 := 0
  lastTimestampNs : UInt64 := 0
  deriving DecidableEq, Repr

structure ReceiverStats where
  datagrams : Nat := 0
  datagramBytes : Nat := 0
  messages : Nat := 0
  payloadBytes : Nat := 0
  malformed : Nat := 0
  malformedByReason : KeyMap Bytes Nat := ∅
  oversize : Nat := 0
  recvErrors : Nat := 0
  kernelDrops : Nat := 0
  incomplete : Nat := 0
  duplicates : Nat := 0
  recordsWritten : Nat := 0
  recordBytes : Nat := 0
  writeErrors : Nat := 0
  recordsSkipped : Nat := 0
  commands : Nat := 0
  reassemblyPending : Nat := 0
  recordingEnabled : Bool := false
  captureOpen : Bool := false
  captureFailed : Bool := false
  captureError : Bytes := []
  captureFile : Bytes := []
  sources : KeyMap UInt32 ReceiverSourceStats := ∅

namespace ReceiverStats

/-- `sources[id]`. -/
def block (st : ReceiverStats) (id : UInt32) : ReceiverSourceStats := KeyMap.get {} st.sources id

/-- A change of `sources[id]`. -/
def source (st : ReceiverStats) (id : UInt32) (f : ReceiverSourceStats → ReceiverSourceStats) : ReceiverStats :=
  { st with sources := KeyMap.update {} st.sources id f }

end ReceiverStats

structure Receiver where
  cfg : ReceiverConfig
  reassembler : Reassembler := {}
  sequences : SequenceTracker := {}
  writer : CaptureWriter := {}
  recording : Bool := false
  stats : ReceiverStats := {}
  kernelDropsRaw : UInt32 := 0

namespace Receiver

/-- The constructor. -/
def create (cfg : ReceiverConfig) : Receiver where
  cfg := cfg
  stats := { captureFile := cfg.captureFile }

/-- What became of an event. -/
inductive Reaction where
  /-- The datagram was not accepted; the source that it counts for, if its header was readable. -/
  | rejected (err : ParseError) (source : Option UInt32)
  /-- The reassembler took the datagram, the tracker the sequence number of a new message. -/
  | added (hdr : Header) (o : Reassembler.AddOutcome) (seq : Option (SequenceTracker.Outcome × UInt64))
  | swept (o : Reassembler.ExpireOutcome)
  | answered (ok : Bool)
  deriving DecidableEq

inductive Event where
  | init (io : Stdio)
  | datagram (data : Bytes) (now : UInt64) (io : Stdio)
  | sweep (now : UInt64)
  | command (raw : Bytes) (io : Stdio)
  | flush (io : Stdio)
  | close (io : Stdio)

/-- `refresh_capture_stats`. -/
def refreshCaptureStats (s : Receiver) : Receiver :=
  { s with stats := { s.stats with
      recordingEnabled := s.recording
      captureOpen := s.writer.isOpen
      captureFailed := s.writer.failed
      captureError := s.writer.lastError
      recordsWritten := s.writer.recordsWritten
      recordBytes := s.writer.bytesWritten
      reassemblyPending := s.reassembler.pending } }

def countWriteError (s : Receiver) : Receiver :=
  { s with stats := { s.stats with writeErrors := s.stats.writeErrors + 1 } }

/-- `set_recording`. -/
def setRecording (s : Receiver) (enabled : Bool) (io : Stdio) : Receiver × Bool :=
  if enabled then
    if s.writer.failed then (s, false)
    else if ¬ s.writer.isOpen then
      match s.writer.openFile s.cfg.captureFile kVersion io with
      | (w, false) => (({ s with writer := w } : Receiver).refreshCaptureStats, false)
      | (w, true) => (({ s with writer := w, recording := true } : Receiver).refreshCaptureStats, true)
    else (({ s with recording := true } : Receiver).refreshCaptureStats, true)
  else
    let s :=
      if s.recording ∧ s.writer.isOpen then
        match s.writer.flush true io with
        | (w, false) => countWriteError { s with writer := w }
        | (w, true) => { s with writer := w }
      else s
    (({ s with recording := false } : Receiver).refreshCaptureStats, true)

/-- The text of a command in lower case, its separators turned into single spaces. -/
def normalizeCommand (raw : Bytes) : Bytes :=
  let cmd := (toLower (trim raw)).map fun c => if c = 95 ∨ c = 61 ∨ c = 58 then 32 else c
  cmd.foldl (fun norm c => if c = 32 ∧ norm.getLast? = some 32 then norm else norm ++ [c]) []

def recordOnCommands : List Bytes :=
  ["record on", "record start", "record enable", "record true", "record 1"].map str

def recordOffCommands : List Bytes :=
  ["record off", "record stop", "record disable", "record false", "record 0"].map str

/-- `handle_command`; the statistics that `stats` logs are not modelled. -/
def handleCommand (s : Receiver) (raw : Bytes) (io : Stdio) : Receiver × Bool :=
  let s := { s with stats := { s.stats with commands := s.stats.commands + 1 } }
  let norm := normalizeCommand raw
  if norm ∈ recordOnCommands then s.setRecording true io
  else if norm ∈ recordOffCommands then s.setRecording false io
  else if norm = str "record toggle" then s.setRecording (!s.recording) io
  else if norm = str "flush" then
    if s.writer.isOpen then
      match s.writer.flush true io with
      | (w, false) => ((countWriteError { s with writer := w }).refreshCaptureStats, false)
      | (w, true) => ({ s with writer := w }, true)
    else (s, true)
  else if norm = str "stats" ∨ norm = str "status" then (s, true)
  else (s, false)

/-- `note_malformed`, with the source it is counted for. -/
def noteMalformed (s : Receiver) (reason : Bytes) (source : Option UInt32) : Receiver :=
  let stats := { s.stats with
    malformed := s.stats.malformed + 1
    malformedByReason := KeyMap.update 0 s.stats.malformedByReason reason (· + 1) }
  match source with
  | none => { s with stats := stats }
  | some id => { s with stats := stats.source id fun ss => { ss with malformed := ss.malformed + 1 } }

/-- The first half of `on_complete`: the counters. -/
def countMessage (s : Receiver) (m : CompletedMessage) : Receiver :=
  let stats :=
    { s.stats with messages := s.stats.messages + 1, payloadBytes := s.stats.payloadBytes + m.length }
  { s with stats := stats.source m.sourceId fun ss =>
    { ss with
      messages := ss.messages + 1
      payloadBytes := ss.payloadBytes + m.length
      lastSequence := m.sequence
      lastTimestampNs := m.timestampNs } }

/-- `on_complete`. -/
def onComplete (s : Receiver) (m : CompletedMessage) (io : Stdio) : Exec Receiver :=
  let s := s.countMessage m
  if ¬ s.recording ∨ ¬ s.writer.isOpen ∨ s.writer.failed then
    .ok { s with stats := { s.stats with recordsSkipped := s.stats.recordsSkipped + 1 } }
  else do
    let rh : RecordHeader :=
      { sourceId := m.sourceId, sequence := m.sequence, timestampNs := m.timestampNs, flags := m.flags }
    match ← s.writer.writeRecord rh m.data m.length io with
    | (w, false) => .ok (countWriteError { s with writer := w, recording := false }).refreshCaptureStats
    | (w, true) =>
      .ok { s with writer := w, stats := s.stats.source m.sourceId fun ss =>
        { ss with recordsWritten := ss.recordsWritten + 1 } }

/-- The sequence number of a new message goes to the tracker. -/
def observeNew (t : SequenceTracker) (h : Header) (newMessage : Bool) :
    SequenceTracker × Option (SequenceTracker.Outcome × UInt64) :=
  if newMessage then ((t.observe h.sourceId h.sequence).1, some (t.observe h.sourceId h.sequence).2) else (t, none)

/-- The first `switch` of `handle_datagram`, on what the tracker found. -/
def noteSequence (s : Receiver) (id : UInt32) (seq : Option (SequenceTracker.Outcome × UInt64)) : Receiver :=
  match seq with
  | some (.gap, missing) =>
    { s with stats := s.stats.source id fun ss =>
      { ss with gapEvents := ss.gapEvents + 1, missing := ss.missing + missing } }
  | some (.outOfOrder, _) =>
    { s with stats := s.stats.source id fun ss => { ss with outOfOrder := ss.outOfOrder + 1 } }
  | _ => s

/-- The reassembler and the tracker have moved on. -/
def advance (s : Receiver) (r : Reassembler) (t : SequenceTracker) : Receiver :=
  { s with reassembler := r, sequences := t }

def countDuplicate (s : Receiver) (id : UInt32) : Receiver :=
  let stats := { s.stats with duplicates := s.stats.duplicates + 1 }
  { s with stats := stats.source id fun ss => { ss with duplicates := ss.duplicates + 1 } }

def countDatagram (s : Receiver) (id : UInt32) (len : Nat) : Receiver :=
  let stats := { s.stats with datagrams := s.stats.datagrams + 1, datagramBytes := s.stats.datagramBytes + len }
  { s with stats := stats.source id fun ss => { ss with datagrams := ss.datagrams + 1 } }

/-- The second `switch` of `handle_datagram`. -/
def settle (s : Receiver) (hdr : Header) (o : Reassembler.AddOutcome) (io : Stdio) : Exec Receiver :=
  match o.result with
  | .complete => s.onComplete o.out io
  | .incomplete => .ok s
  | .duplicate => .ok (s.countDuplicate hdr.sourceId)
  | .malformed => .ok (s.noteMalformed (str "fragment_inconsistent") (some hdr.sourceId))

/-- The source of a rejected datagram, where the header was at least readable. -/
def blamed (p : Parsed) : Option UInt32 :=
  if p.err ≠ .truncated ∧ p.err ≠ .badMagic ∧ p.err ≠ .badVersion then some p.hdr.sourceId else none

/-- `handle_datagram`. -/
def handleDatagram (s : Receiver) (data : Bytes) (now : UInt64) (io : Stdio) : Exec (Receiver × Reaction) := do
  let p ← parseDatagram data {}
  if p.err ≠ .none then .ok (s.noteMalformed p.err.toText (blamed p), .rejected p.err (blamed p))
  else do
    let hdr := p.hdr
    let s := s.countDatagram hdr.sourceId data.length
    -- an accepted datagram has a payload pointer
    let (reassembler, o) ← Reassembler.add s.cfg.reassemblerConfig s.reassembler hdr (p.payload.getD []) now
    let (sequences, seq) := observeNew s.sequences hdr o.newMessage
    let s ← ((s.advance reassembler sequences).noteSequence hdr.sourceId seq).settle hdr o io
    .ok (s, .added hdr o seq)

/-- The callback of `sweep_reassembly`. -/
def noteExpired (s : Receiver) (e : ExpiredMessage) : Receiver :=
  let stats := { s.stats with incomplete := s.stats.incomplete + 1 }
  { s with stats := stats.source e.sourceId fun ss => { ss with incomplete := ss.incomplete + 1 } }

/-- `sweep_reassembly`. -/
def sweepReassembly (s : Receiver) (now : UInt64) : Receiver × Reassembler.ExpireOutcome :=
  let (reassembler, o) := Reassembler.expire s.cfg.reassemblerConfig s.reassembler now
  (o.notified.foldl noteExpired (s.advance reassembler s.sequences), o)

/-- The part of `init` that opens the capture file. -/
def init (s : Receiver) (io : Stdio) : Receiver × Bool :=
  if s.cfg.recordOnStart then s.setRecording true io else (s, true)

/-- The periodic flush of `poll_once`. -/
def pollFlush (s : Receiver) (io : Stdio) : Receiver × Bool :=
  if s.writer.isOpen ∧ ¬ s.writer.failed then
    match s.writer.flush s.cfg.captureSyncOnFlush io with
    | (w, false) => (countWriteError { s with writer := w }, false)
    | (w, true) => ({ s with writer := w }, true)
  else (s, true)

/-- The end of `run`. -/
def shutdown (s : Receiver) (io : Stdio) : Receiver × Bool :=
  if s.writer.isOpen then
    match s.writer.close io with
    | (w, false) => (countWriteError { s with writer := w }, false)
    | (w, true) => ({ s with writer := w }, true)
  else (s, true)

/-- One event. -/
def step (s : Receiver) : Event → Exec (Receiver × Reaction)
  | .init io => let (s, ok) := s.init io; .ok (s, .answered ok)
  | .datagram data now io => s.handleDatagram data now io
  | .sweep now => let (s, o) := s.sweepReassembly now; .ok (s, .swept o)
  | .command raw io => let (s, ok) := s.handleCommand raw io; .ok (s, .answered ok)
  | .flush io => let (s, ok) := s.pollFlush io; .ok (s, .answered ok)
  | .close io => let (s, ok) := s.shutdown io; .ok (s, .answered ok)

/-- The message that an event completed. -/
def Reaction.message : Reaction → Option CompletedMessage
  | .added _ o _ => if o.result = .complete then some o.out else none
  | _ => none

/-- The completed messages, in the order of their completion. -/
def messages (rs : List Reaction) : List CompletedMessage := rs.filterMap Reaction.message

theorem messages_snoc (rs : List Reaction) (r : Reaction) : messages (rs ++ [r]) = messages rs ++ r.message.toList := by
  unfold messages
  rw [List.filterMap_append]
  cases hm : r.message <;> simp [hm]

end Receiver

end IpcRelay
