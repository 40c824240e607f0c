import IpcRelay.Receiver.Accounting
import IpcRelay.Receiver.CaptureReader
import IpcRelay.Receiver.Recording

/-!
# The capture file holds the recorded messages

`FileState` is what the file holds after a list of writer calls: nothing yet,
the header and the recorded messages, or, once an operation has failed, a part
of these and of one more record, to which nothing is added any more. Reading it
back is `readFile_take`; `capture_file` is the result for whole runs.
-/

namespace IpcRelay

open Wire Capture Machine Reassembler

namespace Receiver

/-- The record of a message. -/
def recordOf (m : CompletedMessage) : Record where
  hdr := { recordHeader m with payloadLength := UInt32.ofNat m.length }
  payload := m.data.take m.length

/-- The messages whose `write_record` succeeded, in the order of the calls. -/
def recorded (calls : List (CaptureCall × Bool)) : List CompletedMessage :=
  calls.filterMap fun
    | (.writeRecord m, true) => some m
    | _ => none

/-- The records of these messages. -/
def records (calls : List (CaptureCall × Bool)) : List Record := (recorded calls).map recordOf

/-- The contents of a file with these records. -/
def fileBytes (h : FileHeader) (rs : List Record) : Bytes := encodeFileHeader h ++ rs.flatMap Record.bytes

/-- A header that the reader accepts and that nothing is inserted behind. -/
structure Plain (h : FileHeader) : Prop where
  version : h.version = kFormatVersion
  size : h.headerLength.toNat = kFileHeaderSize

/-- What the file holds after a list of calls. -/
inductive FileState (calls : List (CaptureCall × Bool)) (w : CaptureWriter) : Prop
  | untouched (new : w = {}) (uncalled : calls = [])
  | working {h : FileHeader} (plain : Plain h) (good : w.failed = false) (clean : failures calls = 0)
      (handed : w.handed = fileBytes h (records calls)) (count : w.recordsWritten = (recorded calls).length)
      (size : w.bytesWritten = w.handed.length)
  | broken {h : FileHeader} {x : Record} {n : Nat} (plain : Plain h) (sized : x.Sized) (bad : w.failed = true)
      (failing : 0 < failures calls) (less : n < (fileBytes h (records calls ++ [x])).length)
      (handed : w.handed = (fileBytes h (records calls ++ [x])).take n)

/-- The writer has not been closed: opening again would truncate the file. -/
def Live (w : CaptureWriter) : Prop := w.isOpen = true ∨ w.failed = true ∨ w = {}

section Record

variable {m : CompletedMessage} {calls new : List (CaptureCall × Bool)}

theorem recordOf_sized (fits : m.length ≤ m.data.length) (short : m.length < 2 ^ 32) : (recordOf m).Sized := by
  show (UInt32.ofNat m.length).toNat = (m.data.take m.length).length
  rw [UInt32.toNat_ofNat_of_lt' short, List.length_take, Nat.min_eq_left fits]

theorem recordOf_bytes (fits : m.length ≤ m.data.length) :
    (recordOf m).bytes = recordBytes (recordHeader m) (m.data.take m.length) := by
  have len : (m.data.take m.length).length = m.length := by rw [List.length_take, Nat.min_eq_left fits]
  rw [recordBytes, len]
  rfl

theorem recorded_append : recorded (calls ++ new) = recorded calls ++ recorded new := List.filterMap_append

theorem records_append : records (calls ++ new) = records calls ++ records new := by
  rw [records, recorded_append, List.map_append, records, records]

theorem failures_append : failures (calls ++ new) = failures calls + failures new := List.countP_append

theorem fileBytes_snoc (h : FileHeader) (rs : List Record) (x : Record) :
    fileBytes h (rs ++ [x]) = fileBytes h rs ++ x.bytes := by
  simp [fileBytes]

end Record

section Step

variable {s : Receiver} {r : Reaction} {e : Event} {calls new : List (CaptureCall × Bool)} {side : CaptureSide}

/-- A call that writes nothing leaves the file as it is, or breaks it. -/
theorem FileState.keep {w : CaptureWriter} {c : CaptureCall} {ok : Bool} (state : FileState calls s.writer)
    (isOpen : s.writer.isOpen = true) (noRecord : ∀ m, c ≠ .writeRecord m) (handed : w.handed = s.writer.handed)
    (count : w.recordsWritten = s.writer.recordsWritten) (size : w.bytesWritten = s.writer.bytesWritten)
    (failed : w.failed = (s.writer.failed || !ok)) : FileState (calls ++ [(c, ok)]) w := by
  have same : recorded (calls ++ [(c, ok)]) = recorded calls := by
    rw [recorded_append]
    cases c <;> cases ok <;> simp [recorded] at noRecord ⊢
  have sameRecords : records (calls ++ [(c, ok)]) = records calls := by rw [records, same, records]
  have sum := @failures_append calls [(c, ok)]
  cases state with
  | untouched fresh => rw [fresh] at isOpen; cases isOpen
  | @working h plain good clean handed' count' size' =>
    cases ok with
    | true =>
      refine .working plain (by simp [failed, good]) (by rw [sum, clean]; rfl) ?_ ?_ ?_
      · rw [handed, handed', sameRecords]
      · rw [count, count', same]
      · rw [size, size', handed]
    | false =>
      -- the file stops at a record boundary, in front of a record that is not there
      have whole : (fileBytes h (records calls ++ [⟨{}, []⟩])).take (fileBytes h (records calls)).length =
          fileBytes h (records calls) := by rw [fileBytes_snoc, List.take_left]
      refine .broken (x := ⟨{}, []⟩) (n := (fileBytes h (records calls)).length) plain rfl (by simp [failed])
        (by rw [sum]; simp [failures]) ?_ ?_
      · rw [sameRecords, fileBytes_snoc, List.length_append, Record.length_bytes]
        exact Nat.lt_add_of_pos_right (by simp [kRecordHeaderSize])
      · rw [handed, handed', sameRecords, whole]
  | broken plain sized bad failing less handed' =>
    rw [← sameRecords] at less handed'
    exact .broken plain sized (by simp [failed, bad]) (by rw [sum]; omega) less (by rw [handed, handed'])

theorem FileState.flush {w : CaptureWriter} {sync ok : Bool} {io : Stdio} (state : FileState calls s.writer)
    (isOpen : s.writer.isOpen = true) (c : s.writer.FlushCase sync io w ok) :
    FileState (calls ++ [(.flush sync, ok)]) w := by
  cases c with
  | failed => exact state.keep isOpen (by simp) rfl rfl rfl (by simp)
  | flushed => exact state.keep isOpen (by simp) rfl rfl rfl (by simp)

/-- Only the shutdown closes the file. -/
theorem CaptureStep.live (live : Live s.writer) (open_ : ∀ io, e ≠ .close io) (c : CaptureStep s r e new side) :
    Live side.writer := by
  cases c with
  | idle => exact live
  | enabled => exact live
  | stopped => exact live
  | stoppedFlush _ _ isOpen c => cases c <;> exact .inl isOpen
  | flushed _ isOpen c => cases c <;> exact .inl isOpen
  | opened _ _ _ c =>
    cases c with
    | opened => exact .inl rfl
    | refused => exact .inr (.inl rfl)
    | short => exact .inr (.inl rfl)
  | recorded _ _ isOpen _ _ _ c => cases c <;> exact .inl isOpen
  | closed => exact absurd rfl (open_ _)

/-- What a step makes of the file. -/
theorem FileState.step (state : FileState calls s.writer) (live : Live s.writer) (c : CaptureStep s r e new side) :
    FileState (calls ++ new) side.writer := by
  cases c with
  | idle => rw [List.append_nil]; exact state
  | enabled => rw [List.append_nil]; exact state
  | stopped => rw [List.append_nil]; exact state
  | stoppedFlush _ _ isOpen c => exact state.flush isOpen c
  | flushed _ isOpen c => exact state.flush isOpen c
  | closed isOpen c =>
    cases c with
    | failed => exact state.keep isOpen (by simp) rfl rfl rfl (by simp)
    | closed => exact state.keep isOpen (by simp) rfl rfl rfl (by simp)
  | opened _ working closed c =>
    have fresh : s.writer = {} := by
      rcases live with isOpen | bad | fresh
      · rw [closed] at isOpen; cases isOpen
      · rw [working] at bad; cases bad
      · exact fresh
    have start : calls = [] := by
      cases state with
      | untouched _ uncalled => exact uncalled
      | working _ _ _ handed =>
        have := congrArg List.length handed
        rw [fresh] at this
        simp [fileBytes, kFileHeaderSize] at this
        omega
      | broken _ _ bad => rw [working] at bad; cases bad
    subst start
    have plain : Plain (CaptureWriter.fileHeader kVersion e.io) := ⟨rfl, rfl⟩
    have size : ∀ x : Record, kFileHeaderSize ≤ (fileBytes (CaptureWriter.fileHeader kVersion e.io) [x]).length := by
      simp [fileBytes]
    cases c with
    | opened good =>
      refine .working plain rfl rfl ?_ rfl (by simp)
      simp [fileBytes, records, recorded]
    | refused =>
      refine .broken (x := ⟨{}, []⟩) (n := 0) plain rfl rfl (by simp [failures]) ?_ ?_
      · have := size ⟨{}, []⟩
        exact lt_of_lt_of_le (by decide) this
      · simp [fresh]
    | short _ less =>
      refine .broken (x := ⟨{}, []⟩) plain rfl rfl (by simp [failures]) (lt_of_lt_of_le less (size _)) ?_
      show (encodeFileHeader _).take _ = (encodeFileHeader _ ++ _).take _
      rw [List.take_append_of_le_length]
      rw [length_encodeFileHeader]
      exact less.le
  | @recorded _ _ _ m _ _ _ _ isOpen working fits short c =>
    have bytes := recordOf_bytes fits
    cases state with
    | untouched fresh => rw [fresh] at isOpen; cases isOpen
    | broken _ _ bad => rw [working] at bad; cases bad
    | @working h plain good clean handed count size =>
      cases c with
      | written =>
        have more : records (calls ++ [(.writeRecord m, true)]) = records calls ++ [recordOf m] := records_append
        refine .working plain good ?_ ?_ ?_ ?_
        · rw [failures_append, clean]; rfl
        · rw [more, fileBytes_snoc, bytes, ← handed]
        · rw [recorded_append, List.length_append, ← count]; rfl
        · rw [List.length_append, ← size]
      | @short _ n less =>
        have same : records (calls ++ [(.writeRecord m, false)]) = records calls := by
          rw [records_append]; exact List.append_nil _
        refine .broken (x := recordOf m) (n := (fileBytes h (records calls)).length + n) plain
          (recordOf_sized fits short) rfl ?_ ?_ ?_
        · rw [failures_append]; simp [failures]
        · rw [same, fileBytes_snoc, List.length_append, bytes]
          exact Nat.add_lt_add_left less _
        · rw [same, fileBytes_snoc, List.take_length_add_append, bytes, ← handed]

/-- Nothing is written to a file that has failed. -/
theorem CaptureStep.sealed (failed : s.writer.failed = true) (c : CaptureStep s r e new side) :
    side.writer.handed = s.writer.handed ∧ side.writer.failed = true := by
  cases c with
  | idle => exact ⟨rfl, failed⟩
  | enabled => exact ⟨rfl, failed⟩
  | stopped => exact ⟨rfl, failed⟩
  | stoppedFlush _ _ _ c => cases c <;> exact ⟨rfl, by first | rfl | exact failed⟩
  | flushed _ _ c => cases c <;> exact ⟨rfl, by first | rfl | exact failed⟩
  | closed _ c => cases c <;> exact ⟨rfl, by first | rfl | exact failed⟩
  | opened _ working => rw [failed] at working; cases working
  | recorded _ _ _ working => rw [failed] at working; cases working

/-- Only the message that a step completes is recorded. -/
theorem CaptureStep.recorded_sublist (c : CaptureStep s r e new side) :
    (Receiver.recorded new).Sublist r.message.toList := by
  cases c with
  | @recorded _ _ _ m _ ok message =>
    rw [message]
    cases ok with
    | true => exact List.Sublist.refl _
    | false => exact List.nil_sublist _
  | opened => exact List.nil_sublist _
  | stoppedFlush => exact List.nil_sublist _
  | flushed => exact List.nil_sublist _
  | closed => exact List.nil_sublist _
  | idle => exact List.nil_sublist _
  | enabled => exact List.nil_sublist _
  | stopped => exact List.nil_sublist _

theorem CaptureStep.records_sized (c : CaptureStep s r e new side) : ∀ x ∈ records new, x.Sized := by
  cases c with
  | @recorded _ _ _ m _ ok _ _ _ _ fits short =>
    intro x hx
    cases ok with
    | true =>
      obtain rfl := List.mem_singleton.1 hx
      exact recordOf_sized fits short
    | false => cases hx
  | opened => exact fun _ hx => by cases hx
  | stoppedFlush => exact fun _ hx => by cases hx
  | flushed => exact fun _ hx => by cases hx
  | closed => exact fun _ hx => by cases hx
  | idle => exact fun _ hx => by cases hx
  | enabled => exact fun _ hx => by cases hx
  | stopped => exact fun _ hx => by cases hx

end Step

section Read

open CaptureReader

variable {calls : List (CaptureCall × Bool)} {w : CaptureWriter} {h : FileHeader}

theorem length_fileBytes (h : FileHeader) (rs : List Record) :
    (fileBytes h rs).length = kFileHeaderSize + (rs.flatMap Record.bytes).length := by
  rw [fileBytes, List.length_append, length_encodeFileHeader]

/-- Reading any part of the file from its beginning gives the first of the recorded messages. -/
theorem FileState.readBack (state : FileState calls w) (sized : ∀ x ∈ records calls, x.Sized) (path : Bytes)
    {file : Bytes} (part : file <+: w.handed) :
    ∃ r got, readFile path (.ok file) = .ok (r, got) ∧ got <+: records calls := by
  cases state with
  | untouched fresh =>
    rw [fresh] at part
    obtain rfl := List.prefix_nil.1 part
    obtain ⟨r, ran, -⟩ := readFile_take (h := {}) rfl rfl [] (by simp) path 0
    exact ⟨r, _, ran, List.nil_prefix⟩
  | working plain _ _ handed =>
    rw [handed] at part
    obtain ⟨r, ran, -⟩ := readFile_take plain.version plain.size (records calls) sized path file.length
    rw [← fileBytes, ← List.prefix_iff_eq_take.1 part] at ran
    exact ⟨r, _, ran, Record.whole_prefix _ _⟩
  | @broken h x n plain own _ _ less handed =>
    rw [handed] at part
    have most := part.length_le
    have whole := part.trans (List.take_prefix _ _)
    have allSized : ∀ y ∈ records calls ++ [x], y.Sized := by
      intro y hy
      rcases List.mem_append.1 hy with hy | hy
      · exact sized y hy
      · rw [List.mem_singleton.1 hy]; exact own
    obtain ⟨r, ran, -⟩ := readFile_take plain.version plain.size _ allSized path file.length
    rw [← fileBytes, ← List.prefix_iff_eq_take.1 whole] at ran
    refine ⟨r, _, ran, ?_⟩
    rcases List.prefix_concat_iff.1 (Record.whole_prefix (records calls ++ [x]) (file.length - kFileHeaderSize)) with
      all | front
    · -- the part that is there is too short for the last record
      have fits := Record.length_whole_le (records calls ++ [x]) (file.length - kFileHeaderSize)
      have last : kRecordHeaderSize ≤ ((records calls ++ [x]).flatMap Record.bytes).length := by
        rw [List.flatMap_append, List.length_append, List.flatMap_singleton, x.length_bytes]
        omega
      rw [all] at fits
      rw [length_fileBytes] at less
      rw [List.length_take] at most
      unfold kRecordHeaderSize at last
      omega
    · exact front

/-- If no operation failed, the whole file is read back and the reader ends cleanly. -/
theorem FileState.readWhole (state : FileState calls w) (sized : ∀ x ∈ records calls, x.Sized)
    (good : failures calls = 0) (made : calls ≠ []) (path : Bytes) :
    ∃ r, readFile path (.ok w.handed) = .ok (r, records calls) ∧ r.error = [] := by
  cases state with
  | untouched _ uncalled => exact absurd uncalled made
  | broken _ _ _ failing => omega
  | @working h plain _ _ handed =>
    obtain ⟨r, ran, -, clean⟩ := readFile_take plain.version plain.size (records calls) sized path
      (fileBytes h (records calls)).length
    have behind : (fileBytes h (records calls)).length - kFileHeaderSize =
        ((records calls).flatMap Record.bytes).length := by
      rw [length_fileBytes, Nat.add_sub_cancel_left]
    rw [← fileBytes, List.take_length, behind, Record.whole_all, ← handed] at ran
    refine ⟨r, ran, (clean ?_).2 ?_⟩
    · rw [length_fileBytes]
      exact Nat.le_add_right _ _
    · rw [behind, Record.whole_all, Nat.min_self]

end Read

section Run

open CaptureReader

variable {cfg : ReceiverConfig} {s : Receiver} {es : List Event} {rs : List Reaction}

/-- The program ends with the shutdown. -/
def ClosesLast (es : List Event) : Prop := ∀ pre io rest, es = pre ++ .close io :: rest → rest = []

/-- A run that is closed at its end. -/
theorem closesLast_snoc (es : List Event) (io : Stdio) (before : ∀ io, .close io ∉ es) : ClosesLast (es ++ [.close io]) := by
  intro pre io' rest eq
  rcases List.eq_nil_or_concat rest with rfl | ⟨rest', e, rfl⟩
  · rfl
  · rw [List.concat_eq_append, ← List.cons_append, ← List.append_assoc] at eq
    have front := (List.append_inj' eq rfl).1
    exact absurd (by rw [front]; simp) (before io')

theorem ClosesLast.front {e : Event} (last : ClosesLast (es ++ [e])) : ∀ io, .close io ∉ es := by
  intro io mem
  obtain ⟨pre, rest, rfl⟩ := List.append_of_mem mem
  have := last pre io (rest ++ [e]) (by simp)
  simp at this

theorem ClosesLast.of_prefix {pre : List Event} (last : ClosesLast es) (front : pre <+: es) : ClosesLast pre := by
  rintro a io b rfl
  obtain ⟨rest, rfl⟩ := front
  have := last a io (b ++ rest) (by simp)
  exact (List.append_eq_nil_iff.1 this).1

/-- What a run makes of the file, and which messages it records. -/
theorem file_of_run (sound : cfg.Sound) (last : ClosesLast es) (ran : run step (create cfg) es = .ok (s, rs)) :
    FileState (captureCalls cfg es) s.writer ∧ ((∀ io, .close io ∉ es) → Live s.writer) ∧
      (recorded (captureCalls cfg es)).Sublist (messages rs) ∧ ∀ x ∈ records (captureCalls cfg es), x.Sized := by
  induction es using List.reverseRecOn generalizing s rs with
  | nil =>
    cases ran
    exact ⟨.untouched rfl rfl, fun _ => .inr (.inr rfl), List.Sublist.refl _, fun _ hx => by cases hx⟩
  | append_singleton es e ih =>
    obtain ⟨u, us, r, before, one, rfl⟩ := run_snoc.1 ran
    have noClose := last.front
    obtain ⟨state, live, sub, sized⟩ := ih (last.of_prefix (List.prefix_append es [e])) before
    have sane := sane_of_trace sound (Trace.of_run before)
    have c := captureStep_of_step (by rw [sane.ofCfg]; exact sane.inv)
      (by rw [sane.ofCfg]; exact sound.maxPending_pos) one
    rw [captureCalls_snoc before one]
    refine ⟨state.step (live noClose) c, ?_, ?_, ?_⟩
    · intro open_
      refine c.live (live noClose) ?_
      rintro io rfl
      exact open_ io (by simp)
    · have split : messages (us ++ [r]) = messages us ++ r.message.toList := messages_snoc us r
      rw [recorded_append, split]
      exact sub.append c.recorded_sublist
    · intro x hx
      rw [records_append] at hx
      rcases List.mem_append.1 hx with hx | hx
      · exact sized x hx
      · exact c.records_sized x hx

/-- Once an operation has failed, nothing more goes to the file. -/
theorem sealed_of_run (sound : cfg.Sound) {pre : List Event} {u : Receiver} {us : List Reaction}
    (ranPre : run step (create cfg) pre = .ok (u, us)) (failed : u.writer.failed = true) (front : pre <+: es)
    (ran : run step (create cfg) es = .ok (s, rs)) : s.writer.handed = u.writer.handed := by
  obtain ⟨rest, rfl⟩ := front
  obtain ⟨v, vs, ws, ranPre', ranRest, rfl⟩ := run_append.1 ran
  rw [ranPre] at ranPre'
  cases ranPre'
  have sane := sane_of_trace sound (Trace.of_run ranPre)
  have kept := (Trace.of_run ranRest).invariant
    (I := fun v => Sane cfg v ∧ v.writer.handed = u.writer.handed ∧ v.writer.failed = true) ⟨sane, rfl, failed⟩ ?_
  · exact kept.2.1
  · rintro v e v' r ⟨sane, handed, failed⟩ one
    have c := captureStep_of_step (by rw [sane.ofCfg]; exact sane.inv)
      (by rw [sane.ofCfg]; exact sound.maxPending_pos) one
    obtain ⟨handed', failed'⟩ := c.sealed failed
    exact ⟨(stepped_of_step sound sane one).sane sane, handed'.trans handed, failed'⟩

/-- What the capture file is after a run: `handed` are the bytes handed to `fwrite`, of which
the file is a part from the beginning. -/
structure FileKept (cfg : ReceiverConfig) (es : List Event) (s : Receiver) (rs : List Reaction) : Prop where
  /-- The recorded messages are completed messages, in the order of completion. -/
  completed : (recorded (captureCalls cfg es)).Sublist (messages rs)
  readBack : ∀ path file, file <+: s.writer.handed →
    ∃ r got, readFile path (.ok file) = .ok (r, got) ∧ got <+: records (captureCalls cfg es)
  /-- Without a failure the whole file is read back; before the first call there is none. -/
  readWhole : failures (captureCalls cfg es) = 0 → captureCalls cfg es ≠ [] → ∀ path,
    ∃ r, readFile path (.ok s.writer.handed) = .ok (r, records (captureCalls cfg es)) ∧ r.error = []
  counted : failures (captureCalls cfg es) = 0 →
    s.writer.recordsWritten = (recorded (captureCalls cfg es)).length ∧ s.writer.bytesWritten = s.writer.handed.length
  /-- No byte follows the first failed operation. -/
  sealed : ∀ pre u us, pre <+: es → run step (create cfg) pre = .ok (u, us) → 0 < failures (captureCalls cfg pre) →
    s.writer.handed = u.writer.handed

/-- In every run, whatever fails in it, the capture file holds the recorded messages. -/
theorem capture_file (cfg : ReceiverConfig) (sound : cfg.Sound) (es : List Event) (last : ClosesLast es) :
    ∃ s rs, run step (create cfg) es = .ok (s, rs) ∧ FileKept cfg es s rs := by
  obtain ⟨s, rs, ran, _⟩ := run_ok sound es (sane_create cfg)
  obtain ⟨state, _, sub, sized⟩ := file_of_run sound last ran
  refine ⟨s, rs, ran, sub, fun path file part => state.readBack sized path part,
    fun good made path => state.readWhole sized good made path, ?_, ?_⟩
  · intro good
    cases state with
    | untouched fresh uncalled => rw [fresh, uncalled]; exact ⟨rfl, rfl⟩
    | working _ _ _ _ count size => exact ⟨count, size⟩
    | broken _ _ _ failing => omega
  · intro pre u us front ranPre failing
    obtain ⟨statePre, -⟩ := file_of_run sound (last.of_prefix front) ranPre
    refine sealed_of_run sound ranPre ?_ front ran
    cases statePre with
    | untouched _ uncalled => rw [uncalled] at failing; cases failing
    | working _ _ clean => omega
    | broken _ _ bad => exact bad

/-- Two messages are recorded, the write of the payload of a third stops after one byte, and the file is closed. -/
def fullDisk : List Event :=
  [.init {}, arrives 0 false 0, arrives 0 true 1, arrives 1 false 2, arrives 1 true 3, arrives 2 false 4,
    .datagram (half 2 true).datagram 5 { fwritePayload := some ⟨1, str "ENOSPC"⟩ }, .flush {}]

theorem capture_file_fullDisk : ∃ s rs, run step (create {}) (fullDisk ++ [.close {}]) = .ok (s, rs) ∧
    FileKept {} (fullDisk ++ [.close {}]) s rs ∧
    (recorded (captureCalls {} (fullDisk ++ [.close {}]))).length = 2 ∧
    failures (captureCalls {} (fullDisk ++ [.close {}])) = 1 := by
  have open_ : ∀ io, Event.close io ∉ fullDisk := by simp [fullDisk, arrives]
  obtain ⟨s, rs, ran, kept⟩ := capture_file {} ReceiverConfig.default_sound _ (closesLast_snoc fullDisk {} open_)
  have calls : (recorded (captureCalls {} (fullDisk ++ [.close {}]))).length = 2 ∧
      failures (captureCalls {} (fullDisk ++ [.close {}])) = 1 := by decide +kernel
  exact ⟨s, rs, ran, kept, calls⟩

end Run

end Receiver

end IpcRelay
