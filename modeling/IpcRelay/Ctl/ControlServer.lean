import IpcRelay.Ctl.Client

/-!
# The control server (`ControlServer` in `tools/ctl/backend/control_server.cpp`)

`pollOnce` is one round over the statistics channel, the clients and the
listening socket; a `Round` is what the system answers in it. `step` is a round
or the shutdown at the end of `run`. The observations of a run are the reactions
of its connections, in order.
-/

namespace IpcRelay.Ctl

open WsOpcode WsClose

/-- What `zmq_recv_multipart_nowait` answers, with the clock after it. An empty list of answers is 0. -/
inductive StatsAnswer where
  | frames (first : Bytes) (rest : List Bytes) (clock : Clock)
  | error

/-- What the system answers while one client is served: the events of the poll and the calls they lead to. -/
structure ClientPoll where
  io : ClientIo := {}
  /-- `POLLIN`. -/
  input : Option (List RecvResult) := none
  /-- `POLLOUT`. -/
  output : Option (List SendResult) := none
  /-- `POLLERR`. -/
  failed : Bool := false

/-- The events of a poll that found some. -/
structure Ready where
  stats : Option (List StatsAnswer) := none
  pushClock : Clock := {}
  client : Nat → ClientPoll := fun _ => {}
  /-- The number of connections that are accepted. -/
  accepts : Nat := 0

/-- The result of `zmq_poll`. -/
inductive ServerPoll where
  | interrupted
  | error
  | timeout
  | ready (r : Ready)

/-- What the system answers in one call of `poll_once`. -/
structure Round where
  poll : ServerPoll := .timeout
  clock : Clock := {}
  /-- For the writes at the end. -/
  writes : Nat → List SendResult := fun _ => []

structure ControlWorld where
  server : ControlServer
  clients : List Client := []
  /-- The number of connections that were accepted. -/
  accepted : Nat := 0
  running : Bool := true

/-- Reactions of one connection. -/
def label (fd : Nat) (rs : List Reaction) : List (Nat × Reaction) := rs.map fun r => (fd, r)

/-- The clients that `broadcast_stats` does not skip. -/
def takesUpdate (c : Client) : Bool :=
  c.websocket && !c.dead && !c.closeAfterWrite && decide (c.output.length ≤ kMaxOutputBacklog)

/-- `broadcast_stats`; the envelope is made when the first client takes it. -/
def broadcastStats (s : ControlServer) (clients : List Client) (clock : Clock) :
    ControlServer × List Client × List (Nat × Reaction) :=
  if clients.any takesUpdate then
    let (s, text) := s.statsEnvelope clock
    (s, clients.map fun c => if takesUpdate c then c.emit (.frame kText text) else c,
      clients.flatMap fun c => if takesUpdate c then label c.fd [.frame kText text] else [])
  else (s, clients, [])

/-- The loop of `drain_stats`, with `left` messages to go, and whether one was accepted. -/
def drainLoop : Nat → ControlServer → Bool → List StatsAnswer → Exec (ControlServer × Bool)
  | 0, s, got, _ => .ok (s, got)
  | _ + 1, s, got, [] => .ok (s, got)
  | _ + 1, s, got, .error :: _ => .ok (s, got)
  | left + 1, s, got, .frames first rest clock :: answers => do
    let text := rest.headD first
    match ← Json.parse text with
    | .error _ => drainLoop left { s with statsInvalid := s.statsInvalid + 1 } got answers
    | .ok v =>
      if !v.isObject then drainLoop left { s with statsInvalid := s.statsInvalid + 1 } got answers
      else
        drainLoop left
          { s with latestStats := text, latestStatsNs := clock.monotonicNs, statsReceived := s.statsReceived + 1 }
          true answers

/-- `drain_stats`. -/
def drainStats (s : ControlServer) (clients : List Client) (answers : List StatsAnswer) (clock : Clock) :
    Exec (ControlServer × List Client × List (Nat × Reaction)) := do
  let (s, got) ← drainLoop 64 s false answers
  if got ∧ s.pushOnNextStats then .ok (broadcastStats { s with pushOnNextStats := false } clients clock)
  else .ok (s, clients, [])

/-- The body of the loop over the polled clients. -/
def serveClient (s : ControlServer) (c : Client) (p : ClientPoll) : Exec Handled := do
  let h ← match p.input with
    | some results => readClient s c p.io 0 results
    | none => .ok { server := s, client := c }
  let c := match p.output with
    | some results => if !h.client.dead then writeClient h.client results else h.client
    | none => h.client
  let c := if p.failed then { c with dead := true } else c
  .ok { h with client := c }

def serveClients (poll : Nat → ClientPoll) : ControlServer → List Client →
    Exec (ControlServer × List Client × List (Nat × Reaction))
  | s, [] => .ok (s, [], [])
  | s, c :: cs => do
    let h ← serveClient s c (poll c.fd)
    let (s, cs, rs) ← serveClients poll h.server cs
    .ok (s, h.client :: cs, label c.fd h.reactions ++ rs)

/-- The refusal of a client that is one too many. -/
def tooMany : Reaction := .response 503 textPlain (str "too many clients\n") false []

/-- `accept_clients`, for `n` connections. -/
def acceptClients (s : ControlServer) : Nat → List Client → Nat → List Client × Nat × List (Nat × Reaction)
  | 0, clients, accepted => (clients, accepted, [])
  | n + 1, clients, accepted =>
    let c : Client := { fd := accepted }
    let full := s.cfg.maxClients ≤ clients.length
    let c := if full then { c.emit tooMany with closeAfterWrite := true } else c
    let (clients, total, rs) := acceptClients s n (clients ++ [c]) (accepted + 1)
    (clients, total, (if full then label accepted [tooMany] else []) ++ rs)

/-- The updates of `next_update_ns_`. -/
def nextUpdate (s : ControlServer) (now : UInt64) : UInt64 :=
  let interval := UInt64.ofInt s.cfg.updateIntervalMs * kNsPerMs
  let next := s.nextUpdateNs + interval
  if next ≤ now then now + interval else next

/-- The write of the last loop. -/
def flush (c : Client) (results : List SendResult) : Client :=
  if !c.dead ∧ c.output ≠ [] then writeClient c results else c

/-- What `poll_once` does for the events of a poll. -/
def serveReady (w : ControlWorld) (p : Ready) : Exec (ControlWorld × List (Nat × Reaction)) := do
  let (s, clients, rs₁) ← match p.stats with
    | some answers => drainStats w.server w.clients answers p.pushClock
    | none => .ok (w.server, w.clients, [])
  let (s, clients, rs₂) ← serveClients p.client s clients
  let (clients, accepted, rs₃) := acceptClients s p.accepts clients w.accepted
  .ok ({ w with server := s, clients := clients, accepted := accepted }, rs₁ ++ rs₂ ++ rs₃)

/-- The end of `poll_once`: the update that is due, the writes, and the clients that are closed. -/
def endRound (w : ControlWorld) (r : Round) : ControlWorld × List (Nat × Reaction) :=
  let (s, clients, rs) :=
    if w.server.nextUpdateNs ≤ r.clock.monotonicNs then
      let (s, clients, rs) := broadcastStats w.server w.clients r.clock
      ({ s with nextUpdateNs := nextUpdate s r.clock.monotonicNs }, clients, rs)
    else (w.server, w.clients, [])
  -- a client that is dead is closed, and a closed one is taken off the list
  ({ w with server := s, clients := (clients.map fun c => flush c (r.writes c.fd)).filter fun c => !c.dead }, rs)

/-- `poll_once`, with its return value. -/
def pollOnce (w : ControlWorld) (r : Round) : Exec (ControlWorld × Bool × List (Nat × Reaction)) :=
  match r.poll with
  | .interrupted => .ok (w, true, [])
  | .error => .ok (w, false, [])
  | .timeout => .ok ((endRound w r).1, true, (endRound w r).2)
  | .ready p => do
    let (w, rs) ← serveReady w p
    .ok ((endRound w r).1, true, rs ++ (endRound w r).2)

/-- The close frame of the shutdown. -/
def goingAway : Reaction := .frame kClose (wsClosePayload kGoingAway (str "server shutting down"))

/-- The clients that the shutdown writes to. -/
def takesGoingAway (c : Client) : Bool := c.websocket && !c.dead

/-- The end of `run`, after which all clients are closed. -/
def shutdown (w : ControlWorld) : ControlWorld × List (Nat × Reaction) :=
  ({ w with clients := [], running := false },
    w.clients.flatMap fun c => if takesGoingAway c then label c.fd [goingAway] else [])

inductive ServerEvent where
  | round (r : Round)
  | shutdown

/-- One event of a run. -/
def ControlWorld.step (w : ControlWorld) (e : ServerEvent) : Exec (ControlWorld × List (Nat × Reaction)) :=
  if !w.running then .ok (w, [])
  else
    match e with
    | .shutdown => .ok (Ctl.shutdown w)
    | .round r => do
      let (w, goesOn, rs) ← pollOnce w r
      .ok (if goesOn then w else { w with clients := [], running := false }, rs)

end IpcRelay.Ctl
