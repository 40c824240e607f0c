import IpcRelay.Receiver.Drain

/-!
# The counters of the socket

`drain_udp` counts what the event machine does not see: the kernel's drops, receive
errors, datagrams that are too long. `step_sameCore`: receivers that differ in these
counters only do the same on every event, and still differ in them only.
-/

namespace IpcRelay

open Wire Capture Machine

namespace Receiver

section Socket

/-- The counters that `drain_udp` keeps, and those of malformed datagrams, which it adds to. -/
structure Socket where
  kernelDropsRaw : UInt32
  kernelDrops : Nat
  oversize : Nat
  recvErrors : Nat
  malformed : Nat
  malformedByReason : KeyMap Bytes Nat

def withSocket (s : Receiver) (x : Socket) : Receiver :=
  { s with
    kernelDropsRaw := x.kernelDropsRaw
    stats := { s.stats with
      kernelDrops := x.kernelDrops
      oversize := x.oversize
      recvErrors := x.recvErrors
      malformed := x.malformed
      malformedByReason := x.malformedByReason } }

/-- `s` is `t`, up to these counters. -/
def SameCore (t s : Receiver) : Prop := ∃ x, s = t.withSocket x

variable {s t : Receiver} {x : Socket}

theorem SameCore.refl (s : Receiver) : SameCore s s :=
  ⟨⟨s.kernelDropsRaw, s.stats.kernelDrops, s.stats.oversize, s.stats.recvErrors, s.stats.malformed,
    s.stats.malformedByReason⟩, rfl⟩

theorem SameCore.trans {u : Receiver} (h : SameCore t s) (h' : SameCore s u) : SameCore t u := by
  obtain ⟨x, rfl⟩ := h
  obtain ⟨y, rfl⟩ := h'
  exact ⟨y, rfl⟩

theorem SameCore.drops (h : SameCore t s) (drops : UInt32) : SameCore t { s with kernelDropsRaw := drops } :=
  h.trans ⟨⟨drops, s.stats.kernelDrops, s.stats.oversize, s.stats.recvErrors, s.stats.malformed,
    s.stats.malformedByReason⟩, rfl⟩

theorem SameCore.noteMalformed (h : SameCore t s) (reason : Bytes) : SameCore t (s.noteMalformed reason none) :=
  h.trans ⟨⟨s.kernelDropsRaw, s.stats.kernelDrops, s.stats.oversize, s.stats.recvErrors, s.stats.malformed + 1,
    KeyMap.update 0 s.stats.malformedByReason reason (· + 1)⟩, rfl⟩

/-- A note about a source adds to the counters on both sides. -/
theorem noteMalformed_withSocket (s : Receiver) (x : Socket) (reason : Bytes) (source : Option UInt32) :
    SameCore (s.noteMalformed reason source) ((s.withSocket x).noteMalformed reason source) := by
  cases source <;>
    exact ⟨⟨x.kernelDropsRaw, x.kernelDrops, x.oversize, x.recvErrors, x.malformed + 1,
      KeyMap.update 0 x.malformedByReason reason (· + 1)⟩, rfl⟩

theorem setRecording_withSocket (s : Receiver) (x : Socket) (enabled : Bool) (io : Stdio) :
    (s.withSocket x).setRecording enabled io =
      ((s.setRecording enabled io).1.withSocket x, (s.setRecording enabled io).2) := by
  have opening : ∃ w ok, s.writer.openFile s.cfg.captureFile kVersion io = (w, ok) := ⟨_, _, rfl⟩
  have flushing : ∃ w ok, s.writer.flush true io = (w, ok) := ⟨_, _, rfl⟩
  obtain ⟨w, opened, h⟩ := opening
  obtain ⟨w', flushed, h'⟩ := flushing
  cases enabled with
  | true =>
    by_cases failed : s.writer.failed = true
    · simp [setRecording, withSocket, failed]
    · by_cases isOpen : s.writer.isOpen = true
      · simp [setRecording, withSocket, failed, isOpen, refreshCaptureStats]
      · cases opened <;> simp [setRecording, withSocket, failed, isOpen, h, refreshCaptureStats]
  | false =>
    by_cases flushes : s.recording = true ∧ s.writer.isOpen = true
    · cases flushed <;> simp [setRecording, withSocket, flushes, h', refreshCaptureStats, countWriteError]
    · simp [setRecording, withSocket, flushes, refreshCaptureStats]

theorem handleCommand_withSocket (s : Receiver) (x : Socket) (raw : Bytes) (io : Stdio) :
    (s.withSocket x).handleCommand raw io =
      ((s.handleCommand raw io).1.withSocket x, (s.handleCommand raw io).2) := by
  obtain ⟨t, ok, done⟩ : ∃ t ok, s.handleCommand raw io = (t, ok) := ⟨_, _, rfl⟩
  have sets {enabled : Bool} {u : Receiver} (done : u.setRecording enabled io = (t, ok)) :
      (u.withSocket x).setRecording enabled io = (t.withSocket x, ok) := by
    rw [setRecording_withSocket, done]
  rw [done]
  unfold handleCommand at done ⊢
  dsimp only at done ⊢
  by_cases on : normalizeCommand raw ∈ recordOnCommands
  · rw [if_pos on] at done ⊢
    exact sets done
  rw [if_neg on] at done ⊢
  by_cases off : normalizeCommand raw ∈ recordOffCommands
  · rw [if_pos off] at done ⊢
    exact sets done
  rw [if_neg off] at done ⊢
  by_cases toggle : normalizeCommand raw = str "record toggle"
  · rw [if_pos toggle] at done ⊢
    exact sets done
  rw [if_neg toggle] at done ⊢
  by_cases flush : normalizeCommand raw = str "flush"
  · rw [if_pos flush] at done ⊢
    by_cases isOpen : s.writer.isOpen = true
    · rw [if_pos isOpen] at done
      rw [if_pos (show (s.withSocket x).writer.isOpen = true from isOpen)]
      obtain ⟨w, flushed, h⟩ : ∃ w flushed, s.writer.flush true io = (w, flushed) := ⟨_, _, rfl⟩
      rw [h] at done
      rw [show (s.withSocket x).writer.flush true io = (w, flushed) from h]
      cases flushed <;> cases done <;> rfl
    · rw [if_neg isOpen] at done
      rw [if_neg (show ¬ (s.withSocket x).writer.isOpen = true from isOpen)]
      cases done
      rfl
  rw [if_neg flush] at done ⊢
  split_ifs at done ⊢ <;> cases done <;> rfl

theorem pollFlush_withSocket (s : Receiver) (x : Socket) (io : Stdio) :
    (s.withSocket x).pollFlush io = ((s.pollFlush io).1.withSocket x, (s.pollFlush io).2) := by
  obtain ⟨w, flushed, h⟩ : ∃ w flushed, s.writer.flush s.cfg.captureSyncOnFlush io = (w, flushed) := ⟨_, _, rfl⟩
  by_cases flushes : s.writer.isOpen = true ∧ ¬ s.writer.failed = true
  · cases flushed <;> simp [pollFlush, withSocket, flushes, h, countWriteError]
  · rw [pollFlush, pollFlush, if_neg flushes]
    exact if_neg flushes

theorem shutdown_withSocket (s : Receiver) (x : Socket) (io : Stdio) :
    (s.withSocket x).shutdown io = ((s.shutdown io).1.withSocket x, (s.shutdown io).2) := by
  obtain ⟨w, closed, h⟩ : ∃ w closed, s.writer.close io = (w, closed) := ⟨_, _, rfl⟩
  by_cases isOpen : s.writer.isOpen = true
  · cases closed <;> simp [shutdown, withSocket, isOpen, h, countWriteError]
  · simp [shutdown, withSocket, isOpen]

theorem noteExpired_withSocket (es : List ExpiredMessage) (s : Receiver) (x : Socket) :
    es.foldl noteExpired (s.withSocket x) = (es.foldl noteExpired s).withSocket x := by
  induction es generalizing s with
  | nil => rfl
  | cons e es ih => exact ih (s.noteExpired e)

theorem sweepReassembly_cfg (s : Receiver) (now : UInt64) : (s.sweepReassembly now).1.cfg = s.cfg :=
  (books_noteExpired_all (s.advance _ s.sequences) _).2.cfg

theorem sweepReassembly_withSocket (s : Receiver) (x : Socket) (now : UInt64) :
    (s.withSocket x).sweepReassembly now = ((s.sweepReassembly now).1.withSocket x, (s.sweepReassembly now).2) := by
  unfold sweepReassembly
  exact Prod.ext (noteExpired_withSocket _ (s.advance _ s.sequences) x) rfl

theorem noteSequence_withSocket (s : Receiver) (x : Socket) (id : UInt32)
    (seq : Option (SequenceTracker.Outcome × UInt64)) :
    (s.withSocket x).noteSequence id seq = (s.noteSequence id seq).withSocket x := by
  unfold noteSequence
  split <;> rfl

/-- A message that is complete finds the same writer. -/
theorem onComplete_withSocket {v : Receiver} {m : CompletedMessage} {io : Stdio}
    (done : (s.withSocket x).onComplete m io = .ok v) : ∃ u, s.onComplete m io = .ok u ∧ v = u.withSocket x := by
  unfold onComplete at done ⊢
  dsimp only at done ⊢
  have same : (s.withSocket x).countMessage m = (s.countMessage m).withSocket x := rfl
  rw [same] at done
  generalize s.countMessage m = s at done ⊢
  by_cases skips : ¬ s.recording = true ∨ ¬ s.writer.isOpen = true ∨ s.writer.failed = true
  · have skips' : ¬ (s.withSocket x).recording = true ∨ ¬ (s.withSocket x).writer.isOpen = true ∨
        (s.withSocket x).writer.failed = true := skips
    rw [if_pos skips'] at done
    rw [if_pos skips]
    cases done
    exact ⟨_, rfl, rfl⟩
  · have writes' : ¬ (¬ (s.withSocket x).recording = true ∨ ¬ (s.withSocket x).writer.isOpen = true ∨
        (s.withSocket x).writer.failed = true) := skips
    rw [if_neg writes'] at done
    rw [if_neg skips]
    obtain ⟨⟨w, ok⟩, wrote, rest⟩ := bind_ok.1 done
    cases ok <;> cases rest <;> exact ⟨_, bind_ok.2 ⟨_, wrote, rfl⟩, rfl⟩

theorem settle_withSocket {v : Receiver} {hdr : Header} {o : Reassembler.AddOutcome} {io : Stdio}
    (done : (s.withSocket x).settle hdr o io = .ok v) : ∃ u, s.settle hdr o io = .ok u ∧ SameCore u v := by
  unfold settle at done ⊢
  cases result : o.result with
  | complete =>
    rw [result] at done
    obtain ⟨u, settled, same⟩ := onComplete_withSocket done
    exact ⟨u, settled, x, same⟩
  | incomplete =>
    rw [result] at done
    cases done
    exact ⟨s, rfl, x, rfl⟩
  | duplicate =>
    rw [result] at done
    cases done
    exact ⟨s.countDuplicate hdr.sourceId, rfl, x, rfl⟩
  | malformed =>
    rw [result] at done
    cases done
    exact ⟨_, rfl, noteMalformed_withSocket s x _ _⟩

theorem handleDatagram_withSocket {v : Receiver} {data : Bytes} {now : UInt64} {io : Stdio} {r : Reaction}
    (done : (s.withSocket x).handleDatagram data now io = .ok (v, r)) :
    ∃ u, s.handleDatagram data now io = .ok (u, r) ∧ SameCore u v := by
  unfold handleDatagram at done ⊢
  obtain ⟨p, parse, rest⟩ := bind_ok.1 done
  by_cases bad : p.err ≠ .none
  · rw [if_pos bad] at rest
    cases rest
    refine ⟨_, bind_ok.2 ⟨p, parse, if_pos bad⟩, noteMalformed_withSocket s x _ _⟩
  · rw [if_neg bad] at rest
    obtain ⟨⟨reassembler, o⟩, added, rest⟩ := bind_ok.1 rest
    obtain ⟨w, settled, rest⟩ := bind_ok.1 rest
    cases rest
    have moved : (((s.withSocket x).countDatagram p.hdr.sourceId data.length).advance reassembler
          (observeNew s.sequences p.hdr o.newMessage).1).noteSequence p.hdr.sourceId
          (observeNew s.sequences p.hdr o.newMessage).2 =
        (((s.countDatagram p.hdr.sourceId data.length).advance reassembler
          (observeNew s.sequences p.hdr o.newMessage).1).noteSequence p.hdr.sourceId
          (observeNew s.sequences p.hdr o.newMessage).2).withSocket x :=
      noteSequence_withSocket ((s.countDatagram p.hdr.sourceId data.length).advance reassembler _) x _ _
    obtain ⟨u, settled', same⟩ := settle_withSocket ((congrArg (settle · p.hdr o io) moved).symm.trans settled)
    refine ⟨u, bind_ok.2 ⟨p, parse, ?_⟩, same⟩
    rw [if_neg bad]
    exact bind_ok.2 ⟨_, added, bind_ok.2 ⟨u, settled', rfl⟩⟩

/-- An event does the same to receivers that differ in the socket only. -/
theorem step_sameCore {e : Event} {v : Receiver} {r : Reaction} (same : SameCore s t)
    (done : step t e = .ok (v, r)) : ∃ u, step s e = .ok (u, r) ∧ SameCore u v := by
  obtain ⟨x, rfl⟩ := same
  cases e with
  | datagram data now io => exact handleDatagram_withSocket done
  | sweep now =>
    simp only [step, sweepReassembly_withSocket] at done
    cases done
    exact ⟨_, rfl, x, rfl⟩
  | command raw io =>
    simp only [step, handleCommand_withSocket] at done
    cases done
    exact ⟨_, rfl, x, rfl⟩
  | flush io =>
    simp only [step, pollFlush_withSocket] at done
    cases done
    exact ⟨_, rfl, x, rfl⟩
  | close io =>
    simp only [step, shutdown_withSocket] at done
    cases done
    exact ⟨_, rfl, x, rfl⟩
  | init io =>
    by_cases starts : s.cfg.recordOnStart = true
    · simp only [step, init, withSocket, starts, if_true] at done
      have sets := setRecording_withSocket s x true io
      simp only [withSocket] at sets
      rw [sets] at done
      cases done
      refine ⟨_, by simp only [step, init, starts, if_true], x, rfl⟩
    · simp only [step, init, withSocket, starts, Bool.false_eq_true, if_false] at done
      cases done
      refine ⟨_, by simp only [step, init, starts, Bool.false_eq_true, if_false], x, rfl⟩

theorem SameCore.sane {cfg : ReceiverConfig} (same : SameCore s t) (sane : Sane cfg s) : Sane cfg t := by
  obtain ⟨x, rfl⟩ := same
  exact sane.same rfl rfl rfl rfl

end Socket

end Receiver

end IpcRelay
