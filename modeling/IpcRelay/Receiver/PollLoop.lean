import IpcRelay.Lib.PolledTimer
import IpcRelay.Receiver.CaptureFile
import IpcRelay.Receiver.SocketCounters
import IpcRelay.Receiver.StatsJson

/-!
# The poll loop of the receiver (`Receiver::init`, `poll_once`, `run`)

`ReceiverLoop` is the program around the receiver: its three timers, the command
socket and the statistics socket. A `LoopRound` is what the system answers in one
round of `run`. The rounds of a program make events, and the program refines the
event machine on them (`loop_refines`), so what holds of every run of the machine
holds of the program, its capture file included (`program_file`).
-/

namespace IpcRelay

open Wire Capture Capture.CaptureReader Machine ReceiverConfig

/-- What `zmq_recv_multipart_nowait` answers, with the outcomes of the stdio calls that the
command meets. An empty list of answers is 0. -/
inductive CommandAnswer where
  | frames (first : Bytes) (rest : List Bytes) (io : Stdio)
  | error
  deriving DecidableEq, Repr

/-- The result of `zmq_poll`, with what the sockets that are readable hold. -/
inductive LoopPoll where
  | interrupted
  | error
  | timeout
  | ready (udp : Option (List SocketAnswer)) (commands : Option (List CommandAnswer))

/-- What the system answers in one round of `run`. -/
structure LoopRound where
  /-- The clock when the wait is computed. -/
  before : UInt64 := 0
  poll : LoopPoll := .timeout
  /-- The clock that the timers are compared with. -/
  now : UInt64 := 0
  sweepNow : UInt64 := 0
  flushIo : Stdio := {}
  monotonicNs : UInt64 := 0
  realtimeNs : UInt64 := 0
  /-- `zmq_send_frames` succeeds. -/
  sent : Bool := true

/-- The errors of the calls with which `init` opens the sockets. -/
structure SocketErrors where
  /-- Of `UdpMulticastReceiver::open`. -/
  udp : Option Bytes := none
  /-- Of `zmq_ctx_new`. -/
  context : Option Bytes := none
  /-- Of `zmq_socket` and `zmq_bind`. -/
  statsSocket : Option Bytes := none
  statsBind : Option Bytes := none
  /-- Of `zmq_socket`, and `zmq_bind` or `zmq_connect`. -/
  commandSocket : Option Bytes := none
  commandAttach : Option Bytes := none

/-- What the system answers from the start of the program to its end. -/
structure Session where
  start : UInt64 := 0
  sockets : SocketErrors := {}
  openIo : Stdio := {}
  now : UInt64 := 0
  rounds : List LoopRound := []
  sweepNow : UInt64 := 0
  closeIo : Stdio := {}

structure ReceiverLoop where
  receiver : Receiver
  startMonotonicNs : UInt64
  statsPublished : Nat := 0
  statsPublishFailures : Nat := 0
  nextStatsNs : UInt64 := 0
  nextSweepNs : UInt64 := 0
  nextFlushNs : UInt64 := 0
  running : Bool := true

/-- What a round shows. -/
structure LoopReaction where
  timeoutMs : Nat := 0
  /-- The round got as far as the timers. -/
  completed : Bool := false
  swept : Bool := false
  flushed : Bool := false
  published : Bool := false
  /-- The frames that the statistics socket took. -/
  frames : Option (List Bytes) := none
  deriving DecidableEq, Repr

namespace Receiver

/-- The loop of `drain_commands`. -/
def drainCommands : Nat → Receiver → List CommandAnswer → Receiver
  | 0, s, _ => s
  | _ + 1, s, [] => s
  | _ + 1, s, .error :: _ => s
  | left + 1, s, .frames first rest io :: q => drainCommands left (s.handleCommand (rest.headD first) io).1 q

end Receiver

namespace ReceiverLoop

open Receiver

/-- A number of milliseconds of the configuration in nanoseconds. -/
def intervalNs (ms : Int) : UInt64 := UInt64.ofNat (sizeT ms) * kNsPerMs

def sweepIntervalNs (cfg : ReceiverConfig) : UInt64 :=
  max 10 (UInt64.ofNat (sizeT cfg.reassemblyTimeoutMs) / 4) * kNsPerMs

/-- The part of `init` that opens the sockets: the error of the first call that fails. The ZeroMQ sockets are there
if they have an endpoint. -/
def openSockets (cfg : ReceiverConfig) (e : SocketErrors) : Option Bytes :=
  (e.udp.map (str "UDP multicast receiver: " ++ ·)).or <|
    (e.context.map (str "zmq_ctx_new: " ++ ·)).or <|
      (if cfg.statsEndpoint ≠ [] then
        (e.statsSocket.map (str "zmq_socket(PUB): " ++ ·)).or
          (e.statsBind.map (str "zmq_bind('" ++ cfg.statsEndpoint ++ str "') for statistics: " ++ ·))
      else none).or <|
        if cfg.commandEndpoint ≠ [] then
          (e.commandSocket.map (str "zmq_socket(SUB): " ++ ·)).or
            (e.commandAttach.map (str (if cfg.commandBind then "zmq_bind('" else "zmq_connect('") ++
              cfg.commandEndpoint ++ str "') for commands: " ++ ·))
        else none

/-- The end of `init`: the timers. -/
def armTimers (s : Receiver) (start now : UInt64) : ReceiverLoop :=
  { receiver := s, startMonotonicNs := start
    nextStatsNs := now + intervalNs s.cfg.statsIntervalMs
    nextSweepNs := now + sweepIntervalNs s.cfg
    nextFlushNs := now + intervalNs s.cfg.captureFlushIntervalMs }

/-- `init`, with its error; `start` is the clock at its beginning, `now` at its end. -/
def init (cfg : ReceiverConfig) (sockets : SocketErrors) (start now : UInt64) (io : Stdio) : ReceiverLoop × Option Bytes :=
  match openSockets cfg sockets with
  | some error => ({ receiver := create cfg, startMonotonicNs := start }, some error)
  | none =>
    let (s, ok) := (create cfg).init io
    if ok then (armTimers s start now, none)
    else ({ receiver := s, startMonotonicNs := start }, some (str "capture file: " ++ s.writer.lastError))

/-- `stats_json`. -/
def statsJson (l : ReceiverLoop) (monotonicNs realtimeNs : UInt64) : Bytes :=
  statsToJson
    { l.receiver.refreshCaptureStats.stats with
      startMonotonicNs := l.startMonotonicNs
      statsPublished := l.statsPublished
      statsPublishFailures := l.statsPublishFailures }
    monotonicNs realtimeNs

/-- `publish_stats`, with the frames that the socket takes; the socket is there if it has an endpoint. -/
def publishStats (l : ReceiverLoop) (r : LoopRound) : ReceiverLoop × Option (List Bytes) :=
  let json := l.statsJson r.monotonicNs r.realtimeNs
  if l.receiver.cfg.statsEndpoint ≠ [] then
    if r.sent then ({ l with statsPublished := l.statsPublished + 1 }, some [l.receiver.cfg.statsTopic, json])
    else ({ l with statsPublishFailures := l.statsPublishFailures + 1 }, none)
  else (l, none)

/-- The reassembly timer of `poll_once`. -/
def pollSweep (l : ReceiverLoop) (r : LoopRound) : ReceiverLoop :=
  if l.nextSweepNs ≤ r.now then
    { l with receiver := (l.receiver.sweepReassembly r.sweepNow).1
             nextSweepNs := r.now + sweepIntervalNs l.receiver.cfg }
  else l

def flushIsDue (l : ReceiverLoop) (r : LoopRound) : Prop :=
  0 < l.receiver.cfg.captureFlushIntervalMs ∧ l.nextFlushNs ≤ r.now

instance (l : ReceiverLoop) (r : LoopRound) : Decidable (flushIsDue l r) := inferInstanceAs (Decidable (_ ∧ _))

/-- The flush timer. -/
def pollFlush (l : ReceiverLoop) (r : LoopRound) : ReceiverLoop :=
  if l.flushIsDue r then
    { l with receiver := (l.receiver.pollFlush r.flushIo).1
             nextFlushNs := r.now + intervalNs l.receiver.cfg.captureFlushIntervalMs }
  else l

def armStats (l : ReceiverLoop) (now : UInt64) : ReceiverLoop :=
  { l with nextStatsNs := now + intervalNs l.receiver.cfg.statsIntervalMs }

/-- The statistics timer. -/
def pollStats (l : ReceiverLoop) (r : LoopRound) : ReceiverLoop × Option (List Bytes) :=
  if l.nextStatsNs ≤ r.now then ((l.publishStats r).1.armStats r.now, (l.publishStats r).2) else (l, none)

/-- The end of `poll_once`: the timers. -/
def pollTimers (l : ReceiverLoop) (r : LoopRound) : ReceiverLoop × LoopReaction :=
  let swept := l.pollSweep r
  let flushed := swept.pollFlush r
  let (published, frames) := flushed.pollStats r
  (published,
    { completed := true, swept := l.nextSweepNs ≤ r.now, flushed := swept.flushIsDue r
      published := flushed.nextStatsNs ≤ r.now, frames := frames })

def receiveUdp (s : Receiver) : Option (List SocketAnswer) → Exec Receiver
  | none => .ok s
  | some q => do
    let (s, _) ← s.drainUdp q
    .ok s

/-- The command socket is there if it has an endpoint. -/
def receiveCommands (s : Receiver) : Option (List CommandAnswer) → Receiver
  | none => s
  | some q => if s.cfg.commandEndpoint ≠ [] then drainCommands 64 s q else s

/-- What `poll_once` does with the sockets that are readable. -/
def receive (s : Receiver) (udp : Option (List SocketAnswer)) (commands : Option (List CommandAnswer)) :
    Exec Receiver := do
  let s ← receiveUdp s udp
  .ok (receiveCommands s commands)

/-- `poll_once`, with its return value. -/
def pollOnce (l : ReceiverLoop) (r : LoopRound) : Exec (ReceiverLoop × Bool × LoopReaction) :=
  match r.poll with
  | .interrupted => .ok (l, true, {})
  | .error => .ok (l, false, {})
  | .timeout => .ok ((l.pollTimers r).1, true, (l.pollTimers r).2)
  | .ready udp commands => do
    let s ← receive l.receiver udp commands
    let l := { l with receiver := s }
    .ok ((l.pollTimers r).1, true, (l.pollTimers r).2)

/-- The next deadline of `run`. -/
def nextDeadline (l : ReceiverLoop) : UInt64 :=
  let next := min l.nextStatsNs l.nextSweepNs
  if 0 < l.receiver.cfg.captureFlushIntervalMs then min next l.nextFlushNs else next

/-- The wait of `run`, which fits into a `long`. -/
def timeoutMs (l : ReceiverLoop) (now : UInt64) : Nat :=
  if now < l.nextDeadline then ((l.nextDeadline - now) / kNsPerMs + 1).toNat else 0

/-- A round of `run`; after a fatal error there is none. -/
def step (l : ReceiverLoop) (r : LoopRound) : Exec (ReceiverLoop × LoopReaction) :=
  if !l.running then .ok (l, {})
  else do
    let (l', goesOn, o) ← l.pollOnce r
    .ok ({ l' with running := goesOn }, { o with timeoutMs := l.timeoutMs r.before })

/-- The end of `run`, with the return value. -/
def finish (l : ReceiverLoop) (sweepNow : UInt64) (io : Stdio) : Receiver × Nat :=
  let (s, _) := l.receiver.sweepReassembly sweepNow
  let (s, closed) := s.shutdown io
  (s, if closed then 0 else 1)

/-- `main` after the configuration was built: the receiver at the end and the exit code. -/
def receiverMain (cfg : ReceiverConfig) (x : Session) : Exec (Receiver × Nat) :=
  match init cfg x.sockets x.start x.now x.openIo with
  -- the destructor closes a capture file that is open
  | (l, some _) => .ok ((l.receiver.shutdown x.closeIo).1, 1)
  | (l, none) => do
    let (l, _) ← run step l x.rounds
    .ok (l.finish x.sweepNow x.closeIo)

section Events

/-- The datagrams that `drain_udp` hands on, at most `budget` of them. -/
def takenEvents : Nat → List SocketAnswer → List Event
  | 0, _ => []
  | _ + 1, [] => []
  | budget + 1, .interrupted :: q => takenEvents (budget + 1) q
  | _ + 1, .error _ :: _ => []
  | budget + 1, .datagram data _ now io :: q =>
    if data.length = 0 then []
    else if data.length > bufferSize then takenEvents budget q
    else .datagram data now io :: takenEvents budget q

/-- The commands that `drain_commands` hands on. -/
def commandEvents : Nat → List CommandAnswer → List Event
  | 0, _ => []
  | _ + 1, [] => []
  | _ + 1, .error :: _ => []
  | left + 1, .frames first rest io :: q => .command (rest.headD first) io :: commandEvents left q

def readyEvents (cfg : ReceiverConfig) (udp : Option (List SocketAnswer)) (commands : Option (List CommandAnswer)) :
    List Event :=
  (udp.elim [] (takenEvents cfg.maxDatagramsPerPoll.toNat)) ++
    commands.elim [] fun q => if cfg.commandEndpoint ≠ [] then commandEvents 64 q else []

def timerEvents (l : ReceiverLoop) (r : LoopRound) : List Event :=
  (if l.nextSweepNs ≤ r.now then [.sweep r.sweepNow] else []) ++ if l.flushIsDue r then [.flush r.flushIo] else []

/-- The events of a round. -/
def roundEvents (l : ReceiverLoop) (r : LoopRound) (_ : LoopReaction) : List Event :=
  if !l.running then []
  else
    match r.poll with
    | .interrupted => []
    | .error => []
    | .timeout => timerEvents l r
    | .ready udp commands => readyEvents l.receiver.cfg udp commands ++ timerEvents l r

/-- The events of a program. -/
def sessionEvents (cfg : ReceiverConfig) (x : Session) : List Event :=
  if openSockets cfg x.sockets ≠ none then [.close x.closeIo]
  else
    let l := init cfg x.sockets x.start x.now x.openIo
    .init x.openIo ::
      if l.2 = none then collect step roundEvents l.1 x.rounds ++ [.sweep x.sweepNow, .close x.closeIo]
      else [.close x.closeIo]

end Events

section Refinement

variable {cfg : ReceiverConfig} {t s s' : Receiver} {es es' : List Event} {l : ReceiverLoop} {r : LoopRound}

/-- The events take the receiver `t` to one that is `s` up to the counters of the socket. -/
def Reaches (t : Receiver) (es : List Event) (s : Receiver) : Prop :=
  ∃ u rs, run Receiver.step t es = .ok (u, rs) ∧ SameCore u s

theorem Reaches.nil (same : SameCore t s) : Reaches t [] s := ⟨t, [], rfl, same⟩

theorem Reaches.after {u : Receiver} {rs : List Receiver.Reaction} (ran : run Receiver.step t es = .ok (u, rs))
    (back : Reaches u es' s') : Reaches t (es ++ es') s' := by
  obtain ⟨v, rs', ran', same⟩ := back
  exact ⟨v, rs ++ rs', run_append.2 ⟨u, rs, rs', ran, ran', rfl⟩, same⟩

theorem Reaches.append (front : Reaches t es s) (back : ∀ u, SameCore u s → Reaches u es' s') :
    Reaches t (es ++ es') s' := by
  obtain ⟨u, rs, ran, same⟩ := front
  exact .after ran (back u same)

theorem Reaches.event {e : Event} {r : Receiver.Reaction} (same : SameCore t s) (one : s.step e = .ok (s', r)) :
    Reaches t [e] s' := by
  obtain ⟨u, one', same'⟩ := step_sameCore same one
  exact ⟨u, [r], run_cons.2 ⟨u, r, [], one', rfl, rfl⟩, same'⟩

theorem Reaches.cons {e : Event} {r : Receiver.Reaction} {v : Receiver} (same : SameCore t s)
    (one : s.step e = .ok (v, r)) (rest : ∀ u, SameCore u v → Reaches u es s') : Reaches t (e :: es) s' :=
  (Reaches.event same one).append rest

theorem Reaches.sane (sound : cfg.Sound) (sane : Sane cfg t) (reached : Reaches t es s) : Sane cfg s := by
  obtain ⟨u, rs, ran, same⟩ := reached
  obtain ⟨v, vs, ran', sane'⟩ := run_ok sound es sane
  rw [ran] at ran'
  cases ran'
  exact same.sane sane'

theorem drainLoop_reaches (q : List SocketAnswer) : ∀ {budget : Nat} {t s s' : Receiver} {rest : List SocketAnswer},
    SameCore t s → drainLoop budget s q = .ok (s', rest) → Reaches t (takenEvents budget q) s' := by
  induction q with
  | nil =>
    intro budget t s s' rest same ran
    cases budget <;> cases ran
    · exact .nil same
    · exact .nil (same.drops _)
  | cons a q ih =>
    intro budget t s s' rest same ran
    cases budget with
    | zero =>
      cases ran
      exact .nil same
    | succ budget =>
      cases a with
      | interrupted => exact ih same ran
      | error text =>
        cases ran
        exact .nil (same.trans ⟨⟨s.kernelDropsRaw, s.stats.kernelDrops, s.stats.oversize, s.stats.recvErrors + 1,
          s.stats.malformed, s.stats.malformedByReason⟩, rfl⟩)
      | datagram data drops now io =>
        have moved := same.drops (drops.getD s.kernelDropsRaw)
        have got : UdpMulticastReceiver.receive bufferSize s.kernelDropsRaw (.datagram data drops now io :: q) =
          { n := data.length, buffer := data.take bufferSize, drops := drops.getD s.kernelDropsRaw, now := now,
            io := io, rest := q } := rfl
        unfold takenEvents
        rw [drainLoop, got] at ran
        dsimp only at ran
        by_cases empty : data.length = 0
        · rw [if_pos empty]
          rw [if_pos (by omega)] at ran
          cases ran
          exact .nil moved
        rw [if_neg empty]
        rw [if_neg (by omega), if_neg (by omega), Int.toNat_natCast] at ran
        by_cases big : data.length > bufferSize
        · rw [if_pos big] at ran ⊢
          exact ih (SameCore.noteMalformed (moved.trans ⟨⟨drops.getD s.kernelDropsRaw, s.stats.kernelDrops,
            s.stats.oversize + 1, s.stats.recvErrors, s.stats.malformed, s.stats.malformedByReason⟩, rfl⟩) _) ran
        · have whole : (data.take bufferSize).take data.length = data := by
            rw [List.take_of_length_le (l := data) (by omega), List.take_length]
          rw [if_neg big] at ran ⊢
          rw [whole] at ran
          obtain ⟨⟨u, r⟩, one, rest⟩ := bind_ok.1 ran
          exact .cons (r := r) moved one fun v same => ih same rest

theorem drainUdp_reaches {q rest : List SocketAnswer} (same : SameCore t s) (ran : s.drainUdp q = .ok (s', rest)) :
    Reaches t (takenEvents s.cfg.maxDatagramsPerPoll.toNat q) s' := by
  obtain ⟨⟨u, left⟩, drained, rest⟩ := bind_ok.1 ran
  cases rest
  obtain ⟨v, rs, ran, same'⟩ := drainLoop_reaches q same drained
  exact ⟨v, rs, ran, same'.trans ⟨⟨u.kernelDropsRaw, u.kernelDropsRaw.toNat, u.stats.oversize, u.stats.recvErrors,
    u.stats.malformed, u.stats.malformedByReason⟩, rfl⟩⟩

theorem drainCommands_reaches (q : List CommandAnswer) : ∀ {left : Nat} {t s : Receiver}, SameCore t s →
    Reaches t (commandEvents left q) (drainCommands left s q) := by
  induction q with
  | nil =>
    intro left t s same
    cases left <;> exact .nil same
  | cons a q ih =>
    intro left t s same
    cases left with
    | zero => exact .nil same
    | succ left =>
      cases a with
      | error => exact .nil same
      | frames first rest io => exact .cons same rfl fun u same => ih same

theorem pollSweep_reaches (same : SameCore t l.receiver) :
    Reaches t (if l.nextSweepNs ≤ r.now then [.sweep r.sweepNow] else []) (l.pollSweep r).receiver := by
  unfold pollSweep
  split
  · exact .event same rfl
  · exact .nil same

theorem pollFlush_reaches (same : SameCore t l.receiver) :
    Reaches t (if l.flushIsDue r then [.flush r.flushIo] else []) (l.pollFlush r).receiver := by
  unfold pollFlush
  split
  · exact .event same rfl
  · exact .nil same

theorem publishStats_receiver (l : ReceiverLoop) (r : LoopRound) : (l.publishStats r).1.receiver = l.receiver := by
  unfold publishStats
  generalize l.statsJson r.monotonicNs r.realtimeNs = json
  dsimp only
  split_ifs <;> rfl

theorem armStats_receiver (l : ReceiverLoop) (now : UInt64) : (l.armStats now).receiver = l.receiver := by
  -- on a constructor the projection reduces before the deadlines are compared
  cases l
  rfl

theorem pollStats_receiver (l : ReceiverLoop) (r : LoopRound) : (l.pollStats r).1.receiver = l.receiver := by
  by_cases due : l.nextStatsNs ≤ r.now
  · have published : l.pollStats r = ((l.publishStats r).1.armStats r.now, (l.publishStats r).2) := if_pos due
    rw [published]
    exact (armStats_receiver _ _).trans (publishStats_receiver l r)
  · have waits : l.pollStats r = (l, none) := if_neg due
    rw [waits]

theorem pollSweep_flushIsDue (l : ReceiverLoop) (r : LoopRound) : (l.pollSweep r).flushIsDue r ↔ l.flushIsDue r := by
  unfold pollSweep
  split
  · unfold flushIsDue
    rw [show (l.receiver.sweepReassembly r.sweepNow).1.cfg = l.receiver.cfg from sweepReassembly_cfg _ _]
  · rfl

theorem pollTimers_reaches (same : SameCore t l.receiver) :
    Reaches t (timerEvents l r) (l.pollTimers r).1.receiver := by
  have receiver : (l.pollTimers r).1.receiver = ((l.pollSweep r).pollFlush r).receiver :=
    pollStats_receiver _ r
  rw [receiver]
  refine (pollSweep_reaches same).append fun u same => ?_
  have flushed := @pollFlush_reaches _ (l.pollSweep r) r same
  simp only [pollSweep_flushIsDue] at flushed
  exact flushed

/-- The timers look at the deadlines only. -/
theorem timerEvents_receiver (cfg : s.cfg = l.receiver.cfg) (r : LoopRound) :
    timerEvents { l with receiver := s } r = timerEvents l r := by
  have due : flushIsDue { l with receiver := s } r ↔ l.flushIsDue r := by
    unfold flushIsDue
    rw [cfg]
  simp only [timerEvents, due]

theorem receiveUdp_reaches (sound : cfg.Sound) (sane : Sane cfg s) (same : SameCore t s)
    (udp : Option (List SocketAnswer)) :
    ∃ s', receiveUdp s udp = .ok s' ∧ Reaches t (udp.elim [] (takenEvents cfg.maxDatagramsPerPoll.toNat)) s' := by
  cases udp with
  | none => exact ⟨s, rfl, .nil same⟩
  | some q =>
    obtain ⟨u, _, rest, drained, -⟩ := drainLoop_spec sound cfg.maxDatagramsPerPoll.toNat q s sane
    have ran : s.drainUdp q = .ok ({ u with stats := { u.stats with kernelDrops := u.kernelDropsRaw.toNat } }, rest) := by
      unfold drainUdp
      rw [sane.ofCfg]
      exact bind_ok.2 ⟨_, drained, rfl⟩
    refine ⟨_, bind_ok.2 ⟨_, ran, rfl⟩, ?_⟩
    have reached := drainUdp_reaches same ran
    rw [sane.ofCfg] at reached
    exact reached

theorem receiveCommands_reaches (ofCfg : s.cfg = cfg) (same : SameCore t s) (commands : Option (List CommandAnswer)) :
    Reaches t (commands.elim [] fun q => if cfg.commandEndpoint ≠ [] then commandEvents 64 q else [])
      (receiveCommands s commands) := by
  cases commands with
  | none => exact .nil same
  | some q =>
    subst ofCfg
    unfold receiveCommands
    dsimp only [Option.elim_some]
    split
    · exact drainCommands_reaches q same
    · exact .nil same

/-- The sockets that are readable. -/
theorem receive_reaches (sound : cfg.Sound) (sane : Sane cfg t) (same : SameCore t s)
    (udp : Option (List SocketAnswer)) (commands : Option (List CommandAnswer)) :
    ∃ s', receive s udp commands = .ok s' ∧ Reaches t (readyEvents cfg udp commands) s' := by
  obtain ⟨u, received, reached⟩ := receiveUdp_reaches sound (same.sane sane) same udp
  have ofCfg : u.cfg = cfg := (reached.sane sound sane).ofCfg
  exact ⟨_, bind_ok.2 ⟨u, received, rfl⟩, reached.append fun v same => receiveCommands_reaches ofCfg same commands⟩

/-- One round of the program. -/
theorem step_reaches (sound : cfg.Sound) (sane : Sane cfg t) (same : SameCore t l.receiver) (r : LoopRound) :
    ∃ l' o, step l r = .ok (l', o) ∧ Reaches t (roundEvents l r o) l'.receiver := by
  have ofCfg : l.receiver.cfg = cfg := (same.sane sane).ofCfg
  unfold step roundEvents
  cases running : l.running with
  | false => exact ⟨l, {}, rfl, .nil same⟩
  | true =>
    simp only [Bool.not_true, Bool.false_eq_true, if_false]
    unfold pollOnce
    cases poll : r.poll with
    | interrupted => exact ⟨_, _, rfl, .nil same⟩
    | error => exact ⟨_, _, rfl, .nil same⟩
    | timeout => exact ⟨_, _, rfl, pollTimers_reaches same⟩
    | ready udp commands =>
      obtain ⟨s, received, reached⟩ := receive_reaches sound sane same udp commands
      refine ⟨_, _, bind_ok.2 ⟨_, bind_ok.2 ⟨s, received, rfl⟩, rfl⟩, ?_⟩
      rw [ofCfg]
      refine reached.append fun u same => ?_
      have cfg' : s.cfg = l.receiver.cfg := by rw [ofCfg]; exact (reached.sane sound sane).ofCfg
      rw [← timerEvents_receiver cfg' r]
      exact @pollTimers_reaches _ { l with receiver := s } r same

/-- Any number of rounds. -/
theorem run_reaches (sound : cfg.Sound) (rounds : List LoopRound) : ∀ {t : Receiver} {l : ReceiverLoop}, Sane cfg t →
    SameCore t l.receiver → ∃ l' os, run step l rounds = .ok (l', os) ∧
      Reaches t (collect step roundEvents l rounds) l'.receiver := by
  induction rounds with
  | nil => exact fun {t l} _ same => ⟨l, [], rfl, .nil same⟩
  | cons r rounds ih =>
    intro t l sane same
    obtain ⟨m, o, one, reached⟩ := step_reaches sound sane same r
    obtain ⟨u, rs, ran, same'⟩ := reached
    have sane' : Sane cfg u := Reaches.sane sound sane ⟨u, rs, ran, .refl u⟩
    obtain ⟨l', os, rest, reached'⟩ := ih sane' same'
    refine ⟨l', o :: os, run_cons.2 ⟨m, o, os, one, rest, rfl⟩, ?_⟩
    rw [collect_cons one]
    exact .after ran reached'

theorem finish_reaches (same : SameCore t l.receiver) (sweepNow : UInt64) (io : Stdio) :
    Reaches t [.sweep sweepNow, .close io] (l.finish sweepNow io).1 :=
  .cons same rfl fun _ same => .event same rfl

theorem takenEvents_close (io : Stdio) (q : List SocketAnswer) : ∀ budget, .close io ∉ takenEvents budget q := by
  induction q with
  | nil => intro budget; cases budget <;> simp [takenEvents]
  | cons a q ih =>
    intro budget
    cases budget with
    | zero => simp [takenEvents]
    | succ budget =>
      cases a with
      | interrupted => exact ih (budget + 1)
      | error => simp [takenEvents]
      | datagram data drops now io' =>
        unfold takenEvents
        split_ifs
        · simp
        · exact ih budget
        · simp [ih budget]

theorem commandEvents_close (io : Stdio) (q : List CommandAnswer) : ∀ left, .close io ∉ commandEvents left q := by
  induction q with
  | nil => intro left; cases left <;> simp [commandEvents]
  | cons a q ih =>
    intro left
    cases left with
    | zero => simp [commandEvents]
    | succ left =>
      cases a with
      | error => simp [commandEvents]
      | frames first rest io' => simp [commandEvents, ih left]

theorem timerEvents_close (l : ReceiverLoop) (r : LoopRound) (io : Stdio) : .close io ∉ timerEvents l r := by
  unfold timerEvents
  split_ifs <;> simp

/-- A round closes nothing. -/
theorem roundEvents_close (l : ReceiverLoop) (r : LoopRound) (o : LoopReaction) (io : Stdio) :
    .close io ∉ roundEvents l r o := by
  unfold roundEvents
  cases l.running with
  | false => simp
  | true =>
    cases r.poll with
    | interrupted => simp
    | error => simp
    | timeout => exact timerEvents_close l r io
    | ready udp commands =>
      have timersClose := timerEvents_close l r io
      simp only [Bool.not_true, Bool.false_eq_true, if_false, readyEvents, List.mem_append, timersClose, or_false, not_or]
      constructor
      · cases udp with
        | none => simp
        | some q => exact takenEvents_close io q _
      · cases commands with
        | none => simp
        | some q =>
          dsimp only [Option.elim_some]
          split_ifs
          · exact commandEvents_close io q _
          · simp

theorem sessionEvents_closesLast (cfg : ReceiverConfig) (x : Session) : ClosesLast (sessionEvents cfg x) := by
  unfold sessionEvents
  split
  · exact closesLast_snoc [] _ fun io mem => by cases mem
  dsimp only
  split
  · rw [← List.cons_append, show [Event.sweep x.sweepNow, .close x.closeIo] = [.sweep x.sweepNow] ++ [.close x.closeIo] from rfl,
      ← List.append_assoc]
    refine closesLast_snoc _ _ fun io mem => ?_
    rcases List.mem_append.1 mem with mem | mem
    · rcases List.mem_cons.1 mem with eq | mem
      · cases eq
      · obtain ⟨l, r, o, -, mem⟩ := mem_collect mem
        exact roundEvents_close l r o io mem
    · simp at mem
  · exact closesLast_snoc [.init x.openIo] _ fun io mem => by simp at mem

/-- How `init` ends: a socket cannot be opened, the capture file cannot, or the program starts. -/
inductive InitCase (cfg : ReceiverConfig) (sockets : SocketErrors) (start now : UInt64) (io : Stdio) :
    ReceiverLoop × Option Bytes → Prop where
  | sockets {l : ReceiverLoop} {error : Bytes} : openSockets cfg sockets = some error → l.receiver = create cfg →
      InitCase cfg sockets start now io (l, some error)
  | capture {l : ReceiverLoop} {error : Bytes} : openSockets cfg sockets = none → ((create cfg).init io).2 = false →
      l.receiver = ((create cfg).init io).1 → InitCase cfg sockets start now io (l, some error)
  | started : openSockets cfg sockets = none → ((create cfg).init io).2 = true →
      InitCase cfg sockets start now io (armTimers ((create cfg).init io).1 start now, none)

theorem init_cases (cfg : ReceiverConfig) (sockets : SocketErrors) (start now : UInt64) (io : Stdio) :
    InitCase cfg sockets start now io (init cfg sockets start now io) := by
  unfold init
  cases opened : openSockets cfg sockets with
  | some error => exact .sockets opened rfl
  | none =>
    dsimp only
    split
    next ok => exact .started opened ok
    next refused => exact .capture opened (by simpa using refused) rfl

/-- The program does not fault, and what it does its events do to the event machine. -/
theorem main_reaches (sound : cfg.Sound) (x : Session) :
    ∃ s code, receiverMain cfg x = .ok (s, code) ∧ Reaches (create cfg) (sessionEvents cfg x) s := by
  have first : (create cfg).step (.init x.openIo) =
      .ok (((create cfg).init x.openIo).1, .answered ((create cfg).init x.openIo).2) := rfl
  obtain ⟨result, started⟩ : ∃ result, init cfg x.sockets x.start x.now x.openIo = result := ⟨_, rfl⟩
  have c := init_cases cfg x.sockets x.start x.now x.openIo
  unfold receiverMain sessionEvents
  rw [started] at c ⊢
  cases c with
  | sockets failed receiver =>
    rw [if_pos (by simp [failed])]
    refine ⟨_, _, rfl, ?_⟩
    rw [receiver]
    exact .event (.refl _) rfl
  | capture opened _ receiver =>
    rw [if_neg (by simp [opened])]
    refine ⟨_, _, rfl, .cons (.refl _) first fun u same => ?_⟩
    rw [receiver]
    exact .event same rfl
  | started opened _ =>
    rw [if_neg (by simp [opened])]
    have sane : Sane cfg ((create cfg).init x.openIo).1 :=
      Reaches.sane sound (sane_create cfg) (Reaches.event (.refl _) first)
    have same : SameCore ((create cfg).init x.openIo).1 (armTimers ((create cfg).init x.openIo).1 x.start x.now).receiver := .refl _
    obtain ⟨l', os, ran, reached⟩ := run_reaches sound x.rounds sane same
    refine ⟨_, _, bind_ok.2 ⟨_, ran, rfl⟩, ?_⟩
    have opening : run Receiver.step (create cfg) [.init x.openIo] = .ok (_, [_]) :=
      run_cons.2 ⟨_, _, [], first, rfl, rfl⟩
    exact Reaches.after opening (reached.append fun _ same => finish_reaches same x.sweepNow x.closeIo)

end Refinement

section Exit

variable {cfg : ReceiverConfig} {s : Receiver}

/-- A program that does not start recording has a capture file that failed and is not open. -/
theorem init_failed (cfg : ReceiverConfig) (io : Stdio) (refused : ((create cfg).init io).2 = false) :
    ((create cfg).init io).1.writer.failed = true ∧ ((create cfg).init io).1.writer.isOpen = false := by
  unfold Receiver.init at refused ⊢
  by_cases starts : (create cfg).cfg.recordOnStart = true
  · rw [if_pos starts] at refused ⊢
    obtain ⟨w, ok, opening⟩ : ∃ w ok, (create cfg).writer.openFile (create cfg).cfg.captureFile kVersion io = (w, ok) :=
      ⟨_, _, rfl⟩
    have c := CaptureWriter.openFile_cases (w := (create cfg).writer) rfl (create cfg).cfg.captureFile kVersion io
    have working : ¬ (create cfg).writer.failed = true := Bool.false_ne_true
    have closed : ¬ (create cfg).writer.isOpen = true := Bool.false_ne_true
    unfold setRecording at refused ⊢
    rw [if_pos rfl, if_neg working, if_pos closed, opening] at refused ⊢
    rw [opening] at c
    cases c with
    | refused => exact ⟨rfl, rfl⟩
    | short => exact ⟨rfl, rfl⟩
    | opened => cases refused
  · rw [if_neg starts] at refused
    cases refused

theorem shutdown_code (s : Receiver) (io : Stdio) (bad : (s.shutdown io).2 = false) :
    (s.shutdown io).1.writer.failed = true := by
  unfold shutdown at bad ⊢
  by_cases isOpen : s.writer.isOpen = true
  · obtain ⟨w, ok, closed⟩ : ∃ w ok, s.writer.close io = (w, ok) := ⟨_, _, rfl⟩
    have c := CaptureWriter.close_cases isOpen io
    rw [if_pos isOpen, closed] at bad ⊢
    rw [closed] at c
    cases c with
    | failed => rfl
    | closed => cases bad
  · rw [if_neg isOpen] at bad
    cases bad

/-- How a program exits: with 0; with 1, since a socket could not be opened, with the receiver as it was made; or with
1 after a failure of the capture file. -/
inductive Exits (cfg : ReceiverConfig) (x : Session) (s : Receiver) : Nat → Prop where
  | done : openSockets cfg x.sockets = none → Exits cfg x s 0
  | sockets {error : Bytes} : openSockets cfg x.sockets = some error → s = create cfg → Exits cfg x s 1
  | capture : openSockets cfg x.sockets = none → s.writer.failed = true → Exits cfg x s 1

theorem main_code {x : Session} {code : Nat} (ran : receiverMain cfg x = .ok (s, code)) : Exits cfg x s code := by
  unfold receiverMain at ran
  obtain ⟨result, started⟩ : ∃ result, init cfg x.sockets x.start x.now x.openIo = result := ⟨_, rfl⟩
  have c := init_cases cfg x.sockets x.start x.now x.openIo
  rw [started] at c ran
  cases c with
  | sockets failed receiver =>
    cases ran
    refine .sockets failed ?_
    rw [receiver]
    rfl
  | capture opened refused receiver =>
    obtain ⟨failed, closed⟩ := init_failed cfg x.openIo refused
    cases ran
    refine .capture opened ?_
    rw [receiver]
    unfold shutdown
    rw [if_neg (by rw [closed]; exact Bool.false_ne_true)]
    exact failed
  | started opened _ =>
    obtain ⟨⟨l', os⟩, rounds, last⟩ := bind_ok.1 ran
    unfold finish at last
    obtain ⟨u, closed, done⟩ : ∃ u closed,
        (l'.receiver.sweepReassembly x.sweepNow).1.shutdown x.closeIo = (u, closed) := ⟨_, _, rfl⟩
    have bad := shutdown_code (l'.receiver.sweepReassembly x.sweepNow).1 x.closeIo
    dsimp only at last
    rw [done] at last bad
    cases closed with
    | true =>
      cases last
      exact .done opened
    | false =>
      cases last
      exact .capture opened (bad rfl)

/-- What a program leaves behind: the capture file holds the recorded messages, all of them
without a failure, and else the first of them. -/
structure Leaves (cfg : ReceiverConfig) (x : Session) (s : Receiver) (rs : List Receiver.Reaction) : Prop where
  completed : (recorded (captureCalls cfg (sessionEvents cfg x))).Sublist (Receiver.messages rs)
  readBack : ∀ path file, file <+: s.writer.handed →
    ∃ r got, readFile path (.ok file) = .ok (r, got) ∧ got <+: records (captureCalls cfg (sessionEvents cfg x))
  readWhole : s.writer.failed = false → captureCalls cfg (sessionEvents cfg x) ≠ [] → ∀ path,
    ∃ r, readFile path (.ok s.writer.handed) = .ok (r, records (captureCalls cfg (sessionEvents cfg x))) ∧
      r.error = [] ∧ s.writer.recordsWritten = (records (captureCalls cfg (sessionEvents cfg x))).length

theorem FileState.good {calls : List (CaptureCall × Bool)} {w : CaptureWriter} (state : FileState calls w)
    (good : w.failed = false) : failures calls = 0 ∧ w.recordsWritten = (recorded calls).length := by
  cases state with
  | untouched fresh uncalled => rw [fresh, uncalled]; exact ⟨rfl, rfl⟩
  | working _ _ clean _ count => exact ⟨clean, count⟩
  | broken _ _ bad => rw [bad] at good; cases good

theorem leaves_of_run {cfg : ReceiverConfig} {x : Session} {s t : Receiver} {rs : List Receiver.Reaction}
    (sound : cfg.Sound) (ran : run Receiver.step (create cfg) (sessionEvents cfg x) = .ok (t, rs))
    (same : SameCore t s) : Leaves cfg x s rs := by
  obtain ⟨state, -, sub, sized⟩ := file_of_run sound (sessionEvents_closesLast cfg x) ran
  have writer : s.writer = t.writer := by
    obtain ⟨_, rfl⟩ := same
    rfl
  refine ⟨sub, ?_, ?_⟩
  · rw [writer]
    exact fun path file part => state.readBack sized path part
  · rw [writer]
    intro good made path
    obtain ⟨clean', count⟩ := FileState.good state good
    obtain ⟨r, read, clean⟩ := state.readWhole sized clean' made path
    exact ⟨r, read, clean, by rw [count, records, List.length_map]⟩

/-- Whatever the system answers, the program runs to its end, and its events take the event
machine to the state that the program is left in, but for the counters of the socket. -/
theorem program_refines (cfg : ReceiverConfig) (sound : cfg.Sound) (x : Session) :
    ∃ s code t rs, receiverMain cfg x = .ok (s, code) ∧
      run Receiver.step (create cfg) (sessionEvents cfg x) = .ok (t, rs) ∧ SameCore t s ∧
      Leaves cfg x s rs ∧ Exits cfg x s code := by
  obtain ⟨s, code, ran, t, rs, ranEvents, same⟩ := main_reaches sound x
  exact ⟨s, code, t, rs, ran, ranEvents, same, leaves_of_run sound ranEvents same, main_code ran⟩

/-- A program that takes a datagram and a command, and then meets a fatal error of its poll. -/
theorem program_refines_lab : let x : Session := { rounds := [
      { poll := .ready (some [.interrupted, .datagram emptyMessage none 0 {}]) (some [.frames [] [str "flush"] {}]) },
      { poll := .error }] }
    ∃ s code t rs, receiverMain {} x = .ok (s, code) ∧
      run Receiver.step (create {}) (sessionEvents {} x) = .ok (t, rs) ∧ SameCore t s ∧
      Leaves {} x s rs ∧ Exits {} x s code :=
  program_refines {} ReceiverConfig.default_sound _

/-- The statistics endpoint is in use. -/
example : openSockets {} { statsBind := some (str "Address already in use") } =
    some (str "zmq_bind('tcp://*:5556') for statistics: Address already in use") := by decide +kernel

end Exit

end ReceiverLoop

end IpcRelay
