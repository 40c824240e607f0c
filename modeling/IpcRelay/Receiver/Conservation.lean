import IpcRelay.Receiver.CaptureFile
import IpcRelay.Receiver.Drain

/-!
# The receiver's counters are conserved

One event is counted in several places: for the receiver and for its source,
for the malformed packets and for the reason, in the capture writer and for the
source of the record. `Move` is the receiver at work at its finest grain: an
event, one pass of the receive loop, or its end (`moves_of_drainUdp`). A move keeps
the sums (`Kept`) and what the writer has counted (`Written`), whatever fails
in it; `counters_conserved` is the result for every run.
-/

namespace IpcRelay

open Wire Capture Machine Reassembler

/-- The counters that the receiver keeps for itself and for each source. -/
inductive Counter where
  | packetsReceived
  | messagesReceived
  | payloadBytes
  | incomplete
  | duplicates
  deriving DecidableEq, Repr

namespace Counter

/-- The receiver's own. -/
def global (st : ReceiverStats) : Counter → Nat
  | packetsReceived => st.datagrams
  | messagesReceived => st.messages
  | payloadBytes => st.payloadBytes
  | incomplete => st.incomplete
  | duplicates => st.duplicates

/-- That of a source. -/
def perSource (b : ReceiverSourceStats) : Counter → Nat
  | packetsReceived => b.datagrams
  | messagesReceived => b.messages
  | payloadBytes => b.payloadBytes
  | incomplete => b.incomplete
  | duplicates => b.duplicates

end Counter

namespace ReceiverStats

/-- The sum over the sources. -/
def sum (st : ReceiverStats) (f : ReceiverSourceStats → Nat) : Nat := KeyMap.total st.sources fun _ b => f b

/-- The receiver's counters are the sums over the sources and over the reasons. -/
structure Reconciled (st : ReceiverStats) : Prop where
  shared : ∀ c : Counter, c.global st = st.sum c.perSource
  malformed : st.malformed = KeyMap.total st.malformedByReason fun _ n => n

variable {st st' : ReceiverStats} {id : UInt32} {g : ReceiverSourceStats → ReceiverSourceStats}

theorem sum_source (f : ReceiverSourceStats → Nat) (zero : f {} = 0) :
    (st.source id g).sum f + f (st.block id) = st.sum f + f (g (st.block id)) :=
  KeyMap.total_update _ _ _ _ _ zero

/-- A counter goes up for the receiver as it does for the source. -/
theorem Reconciled.source (even : st.Reconciled) (sources : st'.sources = st.sources)
    (shared : ∀ (c : Counter) (b : ReceiverSourceStats), c.global st' + c.perSource b = c.global st + c.perSource (g b))
    (malformed : st'.malformed = KeyMap.total st'.malformedByReason fun _ n => n) : (st'.source id g).Reconciled where
  shared c := by
    have before := even.shared c
    have moved := @sum_source st' id g c.perSource (by cases c <;> rfl)
    have same : st'.sum c.perSource = st.sum c.perSource := by rw [sum, sources, sum]
    have both := shared c (st'.block id)
    have own : c.global (st'.source id g) = c.global st' := by cases c <;> rfl
    omega
  malformed := malformed

theorem reconciled_of_heard (same : st'.heard = st.heard) (even : st.Reconciled) : st'.Reconciled where
  shared c := by
    have global : ∀ t : ReceiverStats, c.global t.heard = c.global t := by intro t; cases c <;> rfl
    have sum : ∀ t : ReceiverStats, t.heard.sum c.perSource = t.sum c.perSource := fun _ => rfl
    rw [← global, ← sum, same, global, sum]
    exact even.shared c
  malformed := by
    have field : ∀ {α : Type} (f : ReceiverStats → α), f st'.heard = f st.heard := fun f => by rw [same]
    have total := field (·.malformed)
    have reasons := field (·.malformedByReason)
    exact total.trans (even.malformed.trans (congrArg (KeyMap.total · fun _ n => n) reasons.symm))

end ReceiverStats

namespace Receiver

open ReceiverStats

/-- The calls of `write_record` that failed. -/
def failedWrites (calls : List (CaptureCall × Bool)) : Nat :=
  calls.countP fun
    | (.writeRecord _, false) => true
    | _ => false

/-- A part of a move, with the calls that it makes, keeps the sums; it counts the messages that
it completes as recorded, skipped or lost, and the recorded ones for their sources. -/
structure Kept (s s' : Receiver) (new : List (CaptureCall × Bool)) : Prop where
  reconciled : s.stats.Reconciled → s'.stats.Reconciled
  records : s'.stats.sum (·.recordsWritten) = s.stats.sum (·.recordsWritten) + (recorded new).length
  settled : s'.stats.messages + s.stats.recordsSkipped =
    s.stats.messages + s'.stats.recordsSkipped + (recorded new).length + failedWrites new

section Parts

variable {s s' t : Receiver} {new : List (CaptureCall × Bool)}

theorem Kept.trans {more : List (CaptureCall × Bool)} (a : Kept s t new) (b : Kept t s' more) :
    Kept s s' (new ++ more) where
  reconciled := fun even => b.reconciled (a.reconciled even)
  records := by rw [b.records, a.records, recorded_append, List.length_append, Nat.add_assoc]
  settled := by
    have first := a.settled
    have second := b.settled
    have lost : failedWrites (new ++ more) = failedWrites new + failedWrites more := List.countP_append
    rw [recorded_append, List.length_append, lost]
    omega

theorem Kept.same (stats : s'.stats = s.stats) : Kept s s' [] where
  reconciled := by rw [stats]; exact id
  records := by rw [stats]; rfl
  settled := by rw [stats]; rfl

/-- A change of one source that completes nothing. -/
theorem Kept.source {st : ReceiverStats} {id : UInt32} {g : ReceiverSourceStats → ReceiverSourceStats}
    (stats : s'.stats = st.source id g) (sources : st.sources = s.stats.sources)
    (shared : ∀ (c : Counter) (b : ReceiverSourceStats),
      c.global st + c.perSource b = c.global s.stats + c.perSource (g b))
    (malformed : s.stats.malformed = KeyMap.total s.stats.malformedByReason (fun _ n => n) →
      st.malformed = KeyMap.total st.malformedByReason fun _ n => n)
    (messages : st.messages = s.stats.messages) (skipped : st.recordsSkipped = s.stats.recordsSkipped)
    (records : ∀ b, (g b).recordsWritten = b.recordsWritten) : Kept s s' [] where
  reconciled even := by rw [stats]; exact even.source sources shared (malformed even.malformed)
  records := by
    have moved := @sum_source st id g (·.recordsWritten) rfl
    have same : st.sum (·.recordsWritten) = s.stats.sum (·.recordsWritten) := by rw [sum, sources, sum]
    simp only [records] at moved
    rw [stats, ← same]
    exact Nat.add_right_cancel moved
  settled := by
    rw [stats]
    show st.messages + _ = _ + st.recordsSkipped + 0 + 0
    omega

theorem kept_countDatagram (s : Receiver) (id : UInt32) (len : Nat) : Kept s (s.countDatagram id len) [] := by
  refine .source rfl rfl ?_ (fun even => even) rfl rfl fun _ => rfl
  intro c b
  cases c <;> simp only [Counter.global, Counter.perSource]
  omega

theorem kept_countDuplicate (s : Receiver) (id : UInt32) : Kept s (s.countDuplicate id) [] := by
  refine .source rfl rfl ?_ (fun even => even) rfl rfl fun _ => rfl
  intro c b
  cases c <;> simp only [Counter.global, Counter.perSource]
  omega

theorem kept_noteExpired (s : Receiver) (e : ExpiredMessage) : Kept s (s.noteExpired e) [] := by
  refine .source rfl rfl ?_ (fun even => even) rfl rfl fun _ => rfl
  intro c b
  cases c <;> simp only [Counter.global, Counter.perSource]
  omega

theorem kept_noteExpired_all (es : List ExpiredMessage) : ∀ s : Receiver, Kept s (es.foldl noteExpired s) [] := by
  induction es with
  | nil => exact fun s => .same rfl
  | cons e es ih => exact fun s => (kept_noteExpired s e).trans (ih _)

theorem kept_noteSequence (s : Receiver) (id : UInt32) (seq : Option (SequenceTracker.Outcome × UInt64)) :
    Kept s (s.noteSequence id seq) [] := by
  unfold noteSequence
  split
  · exact .source rfl rfl (by intro c b; cases c <;> rfl) (fun even => even) rfl rfl fun _ => rfl
  · exact .source rfl rfl (by intro c b; cases c <;> rfl) (fun even => even) rfl rfl fun _ => rfl
  · exact .same rfl

/-- A reason is counted where the packet is. -/
theorem kept_noteMalformed (s : Receiver) (reason : Bytes) (source : Option UInt32) :
    Kept s (s.noteMalformed reason source) [] := by
  have reasons : s.stats.malformed = KeyMap.total s.stats.malformedByReason (fun _ n => n) →
      s.stats.malformed + 1 =
        KeyMap.total (KeyMap.update 0 s.stats.malformedByReason reason (· + 1)) fun _ n => n := by
    intro even
    have moved := KeyMap.total_update 0 s.stats.malformedByReason reason (· + 1) (fun _ n => n) rfl
    omega
  cases source with
  | some id => exact .source rfl rfl (by intro c b; cases c <;> rfl) reasons rfl rfl fun _ => rfl
  | none =>
    refine ⟨fun even => ⟨fun c => ?_, reasons even.malformed⟩, rfl, rfl⟩
    exact (show c.global _ = c.global s.stats by cases c <;> rfl).trans (even.shared c)

/-- Only the message that an event completes is written. -/
theorem CaptureStep.noWrite {r : Reaction} {e : Event} {side : CaptureSide} (silent : r.message = none)
    (c : CaptureStep s r e new side) : Receiver.recorded new = [] ∧ failedWrites new = 0 := by
  cases c with
  | recorded message => rw [silent] at message; cases message
  | idle => exact ⟨rfl, rfl⟩
  | enabled => exact ⟨rfl, rfl⟩
  | opened => exact ⟨rfl, rfl⟩
  | stopped => exact ⟨rfl, rfl⟩
  | stoppedFlush => exact ⟨rfl, rfl⟩
  | flushed => exact ⟨rfl, rfl⟩
  | closed => exact ⟨rfl, rfl⟩

theorem Kept.write_nothing (kept : Kept s s' []) (nothing : recorded new = [] ∧ failedWrites new = 0) : Kept s s' new where
  reconciled := kept.reconciled
  records := by rw [kept.records, nothing.1]; rfl
  settled := by rw [kept.settled, nothing.1, nothing.2]; rfl

/-- `on_complete`: the message is skipped, or handed to the writer, which takes it or fails. -/
theorem kept_onComplete {m : CompletedMessage} {data : Bytes} {now : UInt64} {io : Stdio} {r : Reaction}
    (side : t.captureSide = s.captureSide) (message : r.message = some m) (done : t.onComplete m io = .ok s') :
    Kept t s' (s.captured (.datagram data now io) r) := by
  obtain ⟨writer, recording, -⟩ : t.writer = s.writer ∧ t.recording = s.recording ∧
      t.stats.writeErrors = s.stats.writeErrors := by simpa [captureSide] using side
  have counted : t.stats.Reconciled → (t.countMessage m).stats.Reconciled := by
    intro even
    refine even.source rfl ?_ even.malformed
    intro c b
    cases c <;> simp only [Counter.global, Counter.perSource] <;> omega
  have unrecorded : (t.countMessage m).stats.sum (·.recordsWritten) = t.stats.sum (·.recordsWritten) :=
    Nat.add_right_cancel (@sum_source { t.stats with
      messages := t.stats.messages + 1, payloadBytes := t.stats.payloadBytes + m.length } _ _ (·.recordsWritten) rfl)
  have same : (t.countMessage m).writer = s.writer ∧ (t.countMessage m).recording = s.recording := ⟨writer, recording⟩
  have notAsked : s.asked (.datagram data now io) = none := rfl
  have noFlush : s.flushAsked (.datagram data now io) = none := rfl
  unfold captured captureCall
  rw [notAsked, noFlush, message]
  unfold onComplete at done
  dsimp only at done ⊢
  rw [same.1, same.2] at done
  by_cases ready : s.recording = true ∧ s.writer.isOpen = true ∧ ¬ s.writer.failed = true
  · rw [if_neg (by tauto)] at done
    rw [if_pos ready]
    obtain ⟨⟨w, ok⟩, answer, done⟩ := bind_ok.1 done
    simp only [Option.map_some, CaptureCall.answer, Event.io, recordHeader, answer]
    cases ok with
    | true =>
      obtain rfl := Except.ok.inj done
      refine ⟨fun even => (counted even).source rfl (by intro c b; cases c <;> rfl) even.malformed, ?_, ?_⟩
      · have moved := @sum_source (t.countMessage m).stats m.sourceId
          (fun ss => { ss with recordsWritten := ss.recordsWritten + 1 }) (·.recordsWritten) rfl
        rw [unrecorded] at moved
        refine Nat.add_right_cancel (moved.trans ?_)
        simp only [recorded, List.filterMap_cons, List.filterMap_nil, List.length_cons, List.length_nil]
        omega
      · show t.stats.messages + 1 + _ = _ + t.stats.recordsSkipped + 1 + 0
        omega
    | false =>
      obtain rfl := Except.ok.inj done
      refine ⟨fun even => ⟨(counted even).shared, (counted even).malformed⟩, unrecorded, ?_⟩
      show t.stats.messages + 1 + _ = _ + t.stats.recordsSkipped + 0 + 1
      omega
  · rw [if_pos (by tauto)] at done
    rw [if_neg ready]
    obtain rfl := Except.ok.inj done
    refine ⟨fun even => ⟨(counted even).shared, (counted even).malformed⟩, unrecorded, ?_⟩
    show t.stats.messages + 1 + _ = _ + (t.stats.recordsSkipped + 1) + 0 + 0
    omega

theorem Kept.of_heard (same : s'.stats.heard = s.stats.heard) : Kept s s' [] := by
  have field : ∀ {α : Type} (f : ReceiverStats → α), f s'.stats.heard = f s.stats.heard := fun f => by rw [same]
  refine ⟨reconciled_of_heard same, field (·.sum (·.recordsWritten)), ?_⟩
  have messages : s'.stats.messages = s.stats.messages := field (·.messages)
  have skipped : s'.stats.recordsSkipped = s.stats.recordsSkipped := field (·.recordsSkipped)
  show _ = _ + 0 + 0
  omega

theorem Reaction.message_of_silent {r : Reaction} (silent : r.heard = false) : r.message = none := by
  cases r with
  | answered => rfl
  | rejected => cases silent
  | added => cases silent
  | swept => cases silent

/-- Every event keeps the sums. -/
theorem kept_step {e : Event} {r : Reaction} (inv : Inv s.cfg.reassemblerConfig s.reassembler)
    (pos : 0 < s.cfg.reassemblerConfig.maxPending) (one : step s e = .ok (s', r)) : Kept s s' (s.captured e r) := by
  have c := captureStep_of_step inv pos one
  cases known : e.received with
  | none =>
    obtain ⟨-, silent, same⟩ := silent_of_step known one
    exact (Kept.of_heard same).write_nothing (c.noWrite (Reaction.message_of_silent silent))
  | some w =>
    cases e with
    | init => cases known
    | command => cases known
    | flush => cases known
    | close => cases known
    | sweep now =>
      cases one
      have advanced : Kept s (s.advance (expire s.cfg.reassemblerConfig s.reassembler now).1 s.sequences) [] := .same rfl
      exact (advanced.trans (kept_noteExpired_all _ _)).write_nothing (c.noWrite rfl)
    | datagram data now io =>
      rcases Fragment.accepted_or_rejected data with ⟨f, rfl⟩ | ⟨p, parse, bad⟩
      · obtain ⟨u, o, -, rfl, settled⟩ := handleDatagram_inv one
        have arrived := kept_countDatagram s f.hdr.sourceId f.datagram.length
        have advanced : Kept (s.countDatagram f.hdr.sourceId f.datagram.length)
            ((s.countDatagram f.hdr.sourceId f.datagram.length).advance u
              (observeNew s.sequences f.hdr o.newMessage).1) [] := .same rfl
        have before := (arrived.trans advanced).trans
          (kept_noteSequence _ f.hdr.sourceId (observeNew s.sequences f.hdr o.newMessage).2)
        unfold settle at settled
        cases result : o.result with
        | complete =>
          rw [result] at settled
          exact before.trans (kept_onComplete ((captureSide_noteSequence _ _ _).trans rfl)
            (by simp [Reaction.message, result]) settled)
        | incomplete =>
          rw [result] at settled
          obtain rfl := Except.ok.inj settled
          exact before.write_nothing (c.noWrite (by simp [Reaction.message, result]))
        | duplicate =>
          rw [result] at settled
          obtain rfl := Except.ok.inj settled
          exact (before.trans (kept_countDuplicate _ _)).write_nothing (c.noWrite (by simp [Reaction.message, result]))
        | malformed =>
          rw [result] at settled
          obtain rfl := Except.ok.inj settled
          exact (before.trans (kept_noteMalformed _ _ _)).write_nothing (c.noWrite (by simp [Reaction.message, result]))
      · simp only [step, handleDatagram, parse, bind, Except.bind, bad, ne_eq, not_false_eq_true, if_true] at one
        cases one
        exact (kept_noteMalformed s _ _).write_nothing (c.noWrite rfl)

end Parts

section Writer

variable {s : Receiver} {e : Event} {r : Reaction} {calls new : List (CaptureCall × Bool)} {side : CaptureSide}

/-- The bytes of the file and record headers and of the payloads of the recorded messages. -/
def bytesOf (calls : List (CaptureCall × Bool)) : Nat :=
  kFileHeaderSize + ((recorded calls).map fun m => kRecordHeaderSize + m.length).sum

/-- What the writer has counted after a list of calls. -/
structure Written (calls : List (CaptureCall × Bool)) (w : CaptureWriter) : Prop where
  records : w.recordsWritten = (recorded calls).length
  bytes : (.openFile, true) ∈ calls → w.bytesWritten = bytesOf calls
  /-- A failed write is the last one. -/
  lost : failedWrites calls ≤ w.failed.toNat
  opened : w.isOpen = true → (.openFile, true) ∈ calls
  new : w = {} → calls = []

theorem failedWrites_append : failedWrites (calls ++ new) = failedWrites calls + failedWrites new := List.countP_append

/-- A call that is neither an open nor a write leaves the counts. -/
theorem Written.keep {w : CaptureWriter} {c : CaptureCall} {ok : Bool} (written : Written calls s.writer)
    (isOpen : s.writer.isOpen = true) (other : c ≠ .openFile ∧ ∀ m, c ≠ .writeRecord m)
    (count : w.recordsWritten = s.writer.recordsWritten) (size : w.bytesWritten = s.writer.bytesWritten)
    (failed : w.failed = (s.writer.failed || !ok)) : Written (calls ++ [(c, ok)]) w := by
  obtain ⟨noOpen, noWrite⟩ := other
  have same : recorded (calls ++ [(c, ok)]) = recorded calls := by
    rw [recorded_append]
    cases c <;> cases ok <;> simp [recorded] at noWrite ⊢
  have noLoss : failedWrites [(c, ok)] = 0 := by
    cases c <;> cases ok <;> simp [failedWrites] at noWrite ⊢
  have opened := written.opened isOpen
  have bytes : w.bytesWritten = bytesOf (calls ++ [(c, ok)]) := by
    rw [size, written.bytes opened, bytesOf, bytesOf, same]
  refine ⟨?_, fun _ => bytes, ?_, fun _ => List.mem_append_left _ opened, fun unwritten => ?_⟩
  · rw [count, written.records, same]
  · have lost := written.lost
    have more : s.writer.failed.toNat ≤ w.failed.toNat := by
      rw [failed]
      cases s.writer.failed <;> simp
    rw [failedWrites_append, noLoss]
    omega
  · -- a file that was opened has its header
    rw [unwritten, bytesOf, kFileHeaderSize] at bytes
    have : (0 : Nat) = 32 + _ := bytes
    omega

/-- What a step makes of the counts of the writer. -/
theorem Written.step (written : Written calls s.writer) (live : s.asked e = some true → Live s.writer)
    (c : CaptureStep s r e new side) : Written (calls ++ new) side.writer := by
  cases c with
  | idle => rw [List.append_nil]; exact written
  | enabled => rw [List.append_nil]; exact written
  | stopped => rw [List.append_nil]; exact written
  | stoppedFlush _ _ isOpen c =>
    cases c with
    | failed => exact written.keep isOpen (by simp) rfl rfl (by simp)
    | flushed => exact written.keep isOpen (by simp) rfl rfl (by simp)
  | flushed _ isOpen c =>
    cases c with
    | failed => exact written.keep isOpen (by simp) rfl rfl (by simp)
    | flushed => exact written.keep isOpen (by simp) rfl rfl (by simp)
  | closed isOpen c =>
    cases c with
    | failed => exact written.keep isOpen (by simp) rfl rfl (by simp)
    | closed => exact written.keep isOpen (by simp) rfl rfl (by simp)
  | opened on working closed c =>
    -- nothing has been opened before
    have fresh : s.writer = {} := by
      rcases live on with isOpen | bad | fresh
      · rw [closed] at isOpen; cases isOpen
      · rw [working] at bad; cases bad
      · exact fresh
    obtain rfl := written.new fresh
    have failed : ∀ {w : CaptureWriter}, w.failed = true → w ≠ {} := by
      rintro _ bad rfl
      cases bad
    cases c with
    | opened =>
      refine ⟨rfl, fun _ => rfl, Nat.zero_le _, fun _ => List.mem_cons_self, fun unused => ?_⟩
      have off := congrArg CaptureWriter.isOpen unused
      cases off
    | refused =>
      exact ⟨rfl, by simp, Nat.zero_le _, fun isOpen => by simp [closed] at isOpen, fun unused => absurd unused (failed rfl)⟩
    | short =>
      exact ⟨rfl, by simp, Nat.zero_le _, fun isOpen => by simp [closed] at isOpen, fun unused => absurd unused (failed rfl)⟩
  | @recorded _ _ _ m _ _ _ _ isOpen working fits _ c =>
    have opened := written.opened isOpen
    have clean : failedWrites calls = 0 := by
      have lost := written.lost
      rw [working] at lost
      exact Nat.le_zero.1 lost
    have made : s.writer.isOpen = true → ∀ x, (CaptureCall.openFile, true) ∈ calls ++ x :=
      fun _ _ => List.mem_append_left _ opened
    cases c with
    | written =>
      have more : recorded (calls ++ [(.writeRecord m, true)]) = recorded calls ++ [m] := recorded_append
      refine ⟨?_, fun _ => ?_, ?_, fun _ => made isOpen _, fun unused => ?_⟩
      · show s.writer.recordsWritten + 1 = _
        rw [written.records, more, List.length_append]
        rfl
      · show s.writer.bytesWritten + _ = _
        rw [written.bytes opened, bytesOf, bytesOf, more, List.map_append, List.sum_append, length_recordBytes,
          List.length_take, Nat.min_eq_left fits, Nat.add_assoc]
        rfl
      · rw [failedWrites_append, clean]
        exact Nat.zero_le _
      · have off := congrArg CaptureWriter.isOpen unused
        exact absurd (isOpen.symm.trans off) (by decide)
    | short =>
      have same : recorded (calls ++ [(.writeRecord m, false)]) = recorded calls := by
        rw [recorded_append]; exact List.append_nil _
      refine ⟨?_, fun _ => ?_, ?_, fun _ => made isOpen _, fun unused => ?_⟩
      · rw [same]; exact written.records
      · rw [bytesOf, same]; exact written.bytes opened
      · rw [failedWrites_append, clean]
        exact Nat.le_refl 1
      · have bad := congrArg CaptureWriter.failed unused
        cases bad

end Writer

section Move

/-- The receiver at work: an event, one pass of the receive loop on what `receive` returned,
the end of that loop. -/
inductive Move where
  | event (e : Event)
  | pass (got : Receipt)
  | drained

/-- One pass of the loop of `drain_udp`, with the calls of the capture writer. -/
def receivePass (s : Receiver) (got : Receipt) : Exec (Receiver × List (CaptureCall × Bool)) :=
  let s := { s with kernelDropsRaw := got.drops }
  if got.n = 0 then .ok (s, [])
  else if got.n < 0 then .ok ({ s with stats := { s.stats with recvErrors := s.stats.recvErrors + 1 } }, [])
  else if got.n.toNat > bufferSize then
    let s := { s with stats := { s.stats with oversize := s.stats.oversize + 1 } }
    .ok (s.noteMalformed (str "oversize") none, [])
  else do
    let data := got.buffer.take got.n.toNat
    let (s', r) ← s.handleDatagram data got.now got.io
    .ok (s', s.captured (.datagram data got.now got.io) r)

/-- One move. -/
def move (s : Receiver) : Move → Exec (Receiver × List (CaptureCall × Bool))
  | .event e => do
    let (s', r) ← step s e
    .ok (s', s.captured e r)
  | .pass got => s.receivePass got
  | .drained => .ok ({ s with stats := { s.stats with kernelDrops := s.kernelDropsRaw.toNat } }, [])

/-- The events among the moves. -/
def events (ms : List Move) : List Event :=
  ms.filterMap fun
    | .event e => some e
    | _ => none

variable {cfg : ReceiverConfig} {s s' : Receiver} {q rest : List SocketAnswer}

/-- A list of passes leads from `s` to `s'`. -/
def IsPasses (s s' : Receiver) : Prop :=
  ∃ (gots : List Receipt) (obs : List (List (CaptureCall × Bool))), run move s (gots.map .pass) = .ok (s', obs)

/-- The receive loop is a list of passes. -/
theorem passes_of_drainLoop {budget : Nat} (done : drainLoop budget s q = .ok (s', rest)) : IsPasses s s' := by
  induction budget generalizing s q with
  | zero =>
    cases done
    exact ⟨[], [], rfl⟩
  | succ budget ih =>
    rw [drainLoop] at done
    dsimp only at done
    generalize UdpMulticastReceiver.receive bufferSize s.kernelDropsRaw q = got at done
    -- a pass, and the passes of the rest of the loop
    have go : ∀ {u : Receiver} {new : List (CaptureCall × Bool)}, s.receivePass got = .ok (u, new) →
        drainLoop budget u got.rest = .ok (s', rest) → IsPasses s s' := by
      intro u new one done
      obtain ⟨gots, obs, ran⟩ := ih done
      exact ⟨got :: gots, new :: obs, run_cons.2 ⟨u, new, obs, one, ran, rfl⟩⟩
    have last : s.receivePass got = .ok (s', []) → IsPasses s s' :=
      fun one => ⟨[got], [[]], run_cons.2 ⟨s', [], [], one, rfl, rfl⟩⟩
    unfold receivePass at go last
    dsimp only at go last
    split at done
    next empty =>
      rw [if_pos empty] at last
      cases done
      exact last rfl
    next behind =>
      rw [if_neg behind] at go last
      split at done
      next error =>
        rw [if_pos error] at last
        cases done
        exact last rfl
      next sized =>
        rw [if_neg sized] at go
        split at done
        next big =>
          rw [if_pos big] at go
          exact go rfl done
        next fits =>
          rw [if_neg fits] at go
          obtain ⟨⟨u, r⟩, handled, done⟩ := bind_ok.1 done
          exact go (bind_ok.2 ⟨(u, r), handled, rfl⟩) done

/-- `drain_udp` is a list of moves. -/
theorem moves_of_drainUdp (done : s.drainUdp q = .ok (s', rest)) :
    ∃ (gots : List Receipt) (obs : List (List (CaptureCall × Bool))),
      run move s (gots.map .pass ++ [.drained]) = .ok (s', obs) := by
  obtain ⟨⟨u, q'⟩, loop, done⟩ := bind_ok.1 done
  cases done
  obtain ⟨gots, obs, ran⟩ := passes_of_drainLoop loop
  exact ⟨gots, obs ++ [[]], run_snoc.2 ⟨u, obs, [], ran, rfl, rfl⟩⟩

/-- What a move keeps. -/
structure MoveKeeps (s : Receiver) (t : Move) (s' : Receiver) (new : List (CaptureCall × Bool)) : Prop where
  kept : Kept s s' new
  written : ∀ calls, Written calls s.writer → ((∃ e, t = .event e) → Live s.writer) →
    Written (calls ++ new) s'.writer
  live : Live s.writer → (∀ io, t ≠ .event (.close io)) → Live s'.writer

/-- A move that does not reach the writer. -/
theorem MoveKeeps.aside {t : Move} (kept : Kept s s' []) (writer : s'.writer = s.writer) : MoveKeeps s t s' [] where
  kept := kept
  written calls written _ := by rw [List.append_nil, writer]; exact written
  live live _ := by rw [writer]; exact live

/-- No move faults, and every move keeps the sums and what the writer has counted. -/
theorem move_keeps (sound : cfg.Sound) (sane : Sane cfg s) (t : Move) :
    ∃ s' new, move s t = .ok (s', new) ∧ Sane cfg s' ∧ MoveKeeps s t s' new := by
  have inv : Inv s.cfg.reassemblerConfig s.reassembler := by rw [sane.ofCfg]; exact sane.inv
  have pos : 0 < s.cfg.reassemblerConfig.maxPending := by rw [sane.ofCfg]; exact sound.maxPending_pos
  cases t with
  | drained => exact ⟨_, _, rfl, sane.same rfl rfl rfl rfl, .aside ⟨fun even => ⟨even.shared, even.malformed⟩, rfl, rfl⟩ rfl⟩
  | event e =>
    obtain ⟨s', r, one, stepped⟩ := step_cases inv pos e
    have c := captureStep_of_step inv pos one
    refine ⟨s', s.captured e r, bind_ok.2 ⟨(s', r), one, rfl⟩, stepped.sane sane, kept_step inv pos one, ?_, ?_⟩
    · exact fun calls written live => written.step (fun _ => live ⟨e, rfl⟩) c
    · exact fun live open_ => c.live live fun io close => open_ io (by rw [close])
  | pass got =>
    have moved : Sane cfg { s with kernelDropsRaw := got.drops } := sane.same rfl rfl rfl rfl
    show ∃ s' new, s.receivePass got = .ok (s', new) ∧ _
    unfold receivePass
    dsimp only
    split
    · exact ⟨_, _, rfl, moved, .aside (.same rfl) rfl⟩
    split
    · exact ⟨_, _, rfl, moved.same rfl rfl rfl rfl, .aside ⟨fun even => ⟨even.shared, even.malformed⟩, rfl, rfl⟩ rfl⟩
    split
    · have counted : Kept s { s with
          kernelDropsRaw := got.drops, stats := { s.stats with oversize := s.stats.oversize + 1 } } [] :=
        ⟨fun even => ⟨even.shared, even.malformed⟩, rfl, rfl⟩
      exact ⟨_, _, rfl, moved.same rfl rfl rfl rfl, .aside (counted.trans (kept_noteMalformed _ _ none)) rfl⟩
    · generalize same : ({ s with kernelDropsRaw := got.drops } : Receiver) = u at moved
      have writer : s.writer = u.writer := by rw [← same]
      have inv' : Inv u.cfg.reassemblerConfig u.reassembler := by rw [moved.ofCfg]; exact moved.inv
      have pos' : 0 < u.cfg.reassemblerConfig.maxPending := by rw [moved.ofCfg]; exact sound.maxPending_pos
      obtain ⟨s', r, one, stepped⟩ := step_cases inv' pos' (.datagram (got.buffer.take got.n.toNat) got.now got.io)
      have c := captureStep_of_step inv' pos' one
      have before : Kept s u [] := .same (by rw [← same])
      refine ⟨s', _, bind_ok.2 ⟨(s', r), one, rfl⟩, stepped.sane moved, before.trans (kept_step inv' pos' one), ?_, ?_⟩
      · rw [writer]
        exact fun calls written _ => written.step (fun asked => by cases asked) c
      · rw [writer]
        exact fun live _ => c.live live (by simp)

/-- What is conserved: `calls` are the calls of the capture writer so far, with their results. -/
structure Conserved (s : Receiver) (calls : List (CaptureCall × Bool)) : Prop where
  /-- The counters of packets, messages, bytes, incomplete messages and duplicates are sums over
  the sources, that of the malformed packets is the sum over the reasons. -/
  reconciled : s.stats.Reconciled
  records : s.writer.recordsWritten = s.stats.sum (·.recordsWritten)
  settled : s.stats.messages = s.writer.recordsWritten + s.stats.recordsSkipped + failedWrites calls
  lostOne : failedWrites calls ≤ 1
  bytes : (.openFile, true) ∈ calls → s.writer.bytesWritten = bytesOf calls
  opened : s.writer.isOpen = true → (.openFile, true) ∈ calls

/-- What a run keeps; the file is closed by its last event. -/
theorem conserved_of_run (sound : cfg.Sound) {ms : List Move} (last : ClosesLast (events ms)) :
    ∃ s obs, run move (create cfg) ms = .ok (s, obs) ∧ Sane cfg s ∧ Kept (create cfg) s obs.flatten ∧
      Written obs.flatten s.writer ∧ ((∀ io, .close io ∉ events ms) → Live s.writer) := by
  induction ms using List.reverseRecOn with
  | nil =>
    refine ⟨_, _, rfl, sane_create cfg, .same rfl, ⟨rfl, nofun, Nat.zero_le _, fun isOpen => ?_, fun _ => rfl⟩, ?_⟩
    · cases isOpen
    · exact fun _ => .inr (.inr rfl)
  | append_singleton ms t ih =>
    have split : events (ms ++ [t]) = events ms ++ events [t] := List.filterMap_append
    rw [split] at last ⊢
    obtain ⟨u, us, ran, sane, kept, written, live⟩ := ih (last.of_prefix (List.prefix_append _ _))
    obtain ⟨s, new, one, sane', moved⟩ := move_keeps sound sane t
    have flat : (us ++ [new]).flatten = us.flatten ++ new := by simp
    refine ⟨s, us ++ [new], run_snoc.2 ⟨u, us, new, ran, one, rfl⟩, sane', ?_⟩
    rw [flat]
    refine ⟨kept.trans moved.kept, moved.written _ written ?_, fun unclosed => ?_⟩
    · rintro ⟨e, rfl⟩
      exact live last.front
    · refine moved.live (live fun io mem => unclosed io (List.mem_append_left _ mem)) ?_
      rintro io rfl
      exact unclosed io (List.mem_append_right _ (by simp [events]))

/-- In every run, whatever fails in it, the counters are conserved. -/
theorem counters_conserved (cfg : ReceiverConfig) (sound : cfg.Sound) (ms : List Move) (last : ClosesLast (events ms)) :
    ∃ s obs, run move (create cfg) ms = .ok (s, obs) ∧ Conserved s obs.flatten := by
  obtain ⟨s, obs, ran, _, kept, written, _⟩ := conserved_of_run sound last
  have records : s.stats.sum (·.recordsWritten) = 0 + (recorded obs.flatten).length := kept.records
  have settled : s.stats.messages + 0 = 0 + s.stats.recordsSkipped + _ + _ := kept.settled
  have start : (create cfg).stats.Reconciled := ⟨fun c => by cases c <;> rfl, rfl⟩
  refine ⟨s, obs, ran, kept.reconciled start, ?_, ?_, written.lost.trans (Bool.toNat_le _), written.bytes,
    written.opened⟩
  · rw [written.records, records, Nat.zero_add]
  · rw [written.records]
    omega

/-- A message is recorded, the write of the next one fails, and one more is received in the loop. -/
def lossyRun : List Move :=
  [.event (.init {}), .event (.datagram emptyMessage 0 {}),
   .event (.datagram emptyMessage 1 { fwriteHeader := some ⟨3, str "ENOSPC"⟩ }),
   .pass (UdpMulticastReceiver.receive bufferSize 0 [.datagram emptyMessage none 2 {}]), .drained]

theorem counters_conserved_lossyRun :
    ∃ s obs, run move (create {}) lossyRun = .ok (s, obs) ∧ Conserved s obs.flatten :=
  counters_conserved {} ReceiverConfig.default_sound lossyRun (by
    intro pre io rest eq
    have mem : Event.close io ∈ events lossyRun := by rw [eq]; simp
    simp [events, lossyRun] at mem)

/-- One is recorded, one lost, one skipped. -/
example : ((run move (create {}) lossyRun).toOption.map fun r => (r.1.stats.messages, r.1.writer.recordsWritten,
    r.1.stats.recordsSkipped, failedWrites r.2.flatten)) = some (3, 1, 1, 1) := by
  decide +kernel

end Move

end Receiver

end IpcRelay
