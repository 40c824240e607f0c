import IpcRelay.Common.JsonWriter
import IpcRelay.Ctl.Http
import IpcRelay.Ctl.JsonValue
import IpcRelay.Ctl.WebSocket

/-!
# Serving one client (`ControlServer` in `tools/ctl/backend/control_server.cpp`)

The functions of `ControlServer` that work on one client take it with the state
of the server, and return both with the list of what was done for the client:
its `Reaction`s. What is appended to `out` is always the text of reactions.
-/

namespace IpcRelay.Ctl

open WsOpcode WsClose

def kMaxHeaderBytes : Nat := 16 * 1024
def kMaxWsMessage : Nat := 64 * 1024
def kMaxOutputBacklog : Nat := 1024 * 1024
def kProtocolVersion : Int := 1
def kNsPerMs : UInt64 := 1000000

/-- An element of `kWebAssets`. -/
structure WebAsset where
  path : Bytes
  contentType : Bytes
  data : Bytes

/-- What the build puts into the program: `IPCRELAY_VERSION_STRING` and the embedded frontend. -/
structure CtlBuild where
  version : Bytes
  assets : List WebAsset

structure ControlServerConfig where
  updateIntervalMs : Int := 1000
  staleAfterMs : Int := 3000
  statsEndpoint : Bytes := str "tcp://127.0.0.1:5556"
  commandEndpoint : Bytes := str "tcp://127.0.0.1:5557"
  commandTopic : Bytes := []
  webRoot : Bytes := []
  maxClients : Nat := 32

/-- The members of `ControlServer` but for the clients. -/
structure ControlServer where
  build : CtlBuild
  cfg : ControlServerConfig
  latestStats : Bytes := []
  latestStatsNs : UInt64 := 0
  statsReceived : Nat := 0
  statsInvalid : Nat := 0
  updatesSent : Nat := 0
  nextUpdateNs : UInt64 := 0
  pushOnNextStats : Bool := false

structure Client where
  /-- The number of the connection: descriptors that the system gives out again are told apart. -/
  fd : Nat
  websocket : Bool := false
  closeAfterWrite : Bool := false
  dead : Bool := false
  /-- `in`. -/
  input : Bytes := []
  /-- `out`. -/
  output : Bytes := []
  message : Bytes := []
  inMessage : Bool := false
  deriving DecidableEq, Repr

/-- What is done for a client. -/
inductive Reaction where
  /-- Bytes that were read and handed to the parsers, by a read that did not end the connection. -/
  | received (data : Bytes)
  | response (status : Nat) (contentType body : Bytes) (headOnly : Bool) (extraHeaders : List (Bytes × Bytes))
  /-- The answer to `/api/stats`. -/
  | api (body : Bytes) (headOnly : Bool)
  | upgraded (key : Bytes)
  | frame (opcode : UInt8) (payload : Bytes)
  /-- A call of `send_command` with what it hands to the socket and its error. -/
  | command (text : Bytes) (frames : List Bytes) (error : Option Bytes)
  deriving DecidableEq, Repr

/-- What a reaction appends to `out`. -/
def Reaction.bytes : Reaction → Bytes
  | .response status contentType body headOnly extraHeaders => httpResponse status contentType body headOnly extraHeaders
  | .api body headOnly => httpResponse 200 (str "application/json") body headOnly []
  | .upgraded key =>
    str "HTTP/1.1 101 Switching Protocols" ++ crlf ++ str "Upgrade: websocket" ++ crlf ++ str "Connection: Upgrade" ++
      crlf ++ str "Sec-WebSocket-Accept: " ++ websocketAcceptKey key ++ crlf ++ crlf
  | .frame opcode payload => wsEncodeFrame opcode payload
  | .received _ | .command .. => []

def Client.emit (c : Client) (r : Reaction) : Client := { c with output := c.output ++ r.bytes }

/-- `now_monotonic_ns` and `now_realtime_ns`. -/
structure Clock where
  monotonicNs : UInt64 := 0
  realtimeNs : UInt64 := 0

/-- What the system answers while one client is served: the clock, the error of the `k`-th call of
`zmq_send_frames` if it fails, and the contents of a file if it can be read. -/
structure ClientIo where
  clock : Clock := {}
  sendError : Nat → Option Bytes := fun _ => none
  readFile : Bytes → Option Bytes := fun _ => none

/-- What a function leaves, with what it did. -/
structure Handled where
  server : ControlServer
  client : Client
  reactions : List Reaction := []

/-- Something was done before. -/
def Handled.after (rs : List Reaction) (h : Handled) : Handled := { h with reactions := rs ++ h.reactions }

/-- The number of commands among the reactions. -/
def commandCount (rs : List Reaction) : Nat := rs.countP fun
  | .command .. => true
  | _ => false

namespace ControlServer

/-- `hello_json`. -/
def helloJson (s : ControlServer) : Bytes :=
  let j := ({} : JsonWriter).beginObject
  let j := (j.key (str "type")).string (str "hello")
  let j := (j.key (str "protocol_version")).integer kProtocolVersion
  let j := (j.key (str "tool_version")).string s.build.version
  let j := (j.key (str "update_interval_ms")).integer s.cfg.updateIntervalMs
  let j := (j.key (str "stale_after_ms")).integer s.cfg.staleAfterMs
  let j := (j.key (str "stats_endpoint")).string s.cfg.statsEndpoint
  let j := (j.key (str "command_endpoint")).string s.cfg.commandEndpoint
  j.endObject.out

/-- `stats_envelope`. -/
def statsEnvelope (s : ControlServer) (clock : Clock) : ControlServer × Bytes :=
  let known := s.latestStatsNs ≠ 0
  let ageMs := if known then (clock.monotonicNs - s.latestStatsNs) / kNsPerMs else 0
  let s := { s with updatesSent := s.updatesSent + 1 }
  let j := ({} : JsonWriter).beginObject
  let j := (j.key (str "type")).string (str "stats")
  let j := (j.key (str "update")).integer s.updatesSent
  let j := (j.key (str "server_time_ns")).integer clock.realtimeNs.toNat
  let j := (j.key (str "receiver_online")).bool (known ∧ ageMs ≤ UInt64.ofInt s.cfg.staleAfterMs)
  let j := j.key (str "stats_age_ms")
  let j := if known then j.integer ageMs.toNat else j.null
  let j := (j.key (str "stats_received")).integer s.statsReceived
  let j := j.key (str "stats")
  let j := if known then j.raw s.latestStats else j.null
  (s, j.endObject.out)

/-- `send_command`: the frames and the error. -/
def sendCommand (s : ControlServer) (command : Bytes) (result : Option Bytes) : List Bytes × Option Bytes :=
  ((if s.cfg.commandTopic ≠ [] then [s.cfg.commandTopic] else []) ++ [command], result)

/-- `load_asset`: the body and the content type. -/
def loadAsset (s : ControlServer) (io : ClientIo) (path : Bytes) : Option (Bytes × Bytes) :=
  (s.build.assets.find? fun a => path = a.path).map fun a =>
    let body :=
      if s.cfg.webRoot ≠ [] then
        match io.readFile (s.cfg.webRoot ++ a.path) with
        | some body => body
        | none => a.data
      else a.data
    (body, a.contentType)

end ControlServer

def textPlain : Bytes := str "text/plain; charset=utf-8"

/-- `origin_allowed`. -/
def originAllowed (req : HttpRequest) : Bool :=
  if !req.hasHeader (str "origin") then true
  else
    let origin := req.header (str "origin")
    match find origin (str "://") 0 with
    | none => false
    | some p => toLower (origin.drop (p + 3)) = toLower (req.header (str "host"))

/-- `write_json_number`. -/
def writeJsonNumber (j : JsonWriter) (v : Binary64.Double) : JsonWriter :=
  match v.toInteger with
  | some i => if i.natAbs < 9 * 10 ^ 15 then j.integer i else j.double v
  | none => j.double v

/-- What `handle_ws_message` finds in a message: its id, and a command or an error. -/
structure Request where
  id : Option Json.Value := none
  command : Bytes := []
  error : Bytes := []

/-- The decoding of `handle_ws_message`. -/
def readRequest : Except Bytes Json.Value → Request
  | .error e => { error := str "invalid JSON: " ++ e }
  | .ok msg =>
    if !msg.isObject then { error := str "message must be a JSON object" }
    else
      let id := msg.get (str "id")
      match msg.get (str "type") with
      | some (.string type) =>
        if type = str "record" then
          match msg.get (str "enabled") with
          | some (.bool enabled) => { id := id, command := if enabled then str "record on" else str "record off" }
          | _ => { id := id, error := str "\"record\" needs a boolean \"enabled\"" }
        else { id := id, error := str "unknown message type '" ++ type ++ str "'" }
      | _ => { id := id, error := str "missing \"type\"" }

/-- The reply of `handle_ws_message`. -/
def commandResult (id : Option Json.Value) (command : Bytes) (ok : Bool) (error : Bytes) : Bytes :=
  let j := ({} : JsonWriter).beginObject
  let j := (j.key (str "type")).string (str "command_result")
  let j := j.key (str "id")
  let j := match id with
    | some (.number v) => writeJsonNumber j v
    | some (.string s) => j.string s
    | _ => j.null
  let j := (j.key (str "command")).string command
  let j := (j.key (str "ok")).bool ok
  let j := (j.key (str "error")).string error
  j.endObject.out

/-- `ws_send`. -/
def wsSend (s : ControlServer) (c : Client) (text : Bytes) : Handled :=
  { server := s, client := c.emit (.frame kText text), reactions := [.frame kText text] }

/-- `ws_fail`. -/
def wsFail (s : ControlServer) (c : Client) (code : UInt16) (reason : Bytes) : Handled :=
  let close : Reaction := .frame kClose (wsClosePayload code reason)
  { server := s, client := { c.emit close with closeAfterWrite := true }, reactions := [close] }

/-- `handle_ws_message`; `k` commands were sent before. -/
def handleWsMessage (s : ControlServer) (c : Client) (io : ClientIo) (k : Nat) (text : Bytes) : Exec Handled := do
  let req := readRequest (← Json.parse text)
  if req.command ≠ [] then
    let (frames, error) := s.sendCommand req.command (io.sendError k)
    let s := if error.isNone then { s with pushOnNextStats := true } else s
    .ok ((wsSend s c (commandResult req.id req.command error.isNone (error.getD req.error))).after
      [.command req.command frames error])
  else .ok (wsSend s c (commandResult req.id req.command false req.error))

/-- A piece of a message is added to it, or begins it. -/
def addPiece (c : Client) (f : WsFrame) : Client :=
  { c with message := (if f.opcode = kText then [] else c.message) ++ f.payload, inMessage := !f.fin }

/-- The body of the loop of `handle_ws_frames`, for a frame that was taken from the input. -/
def handleWsFrame (s : ControlServer) (c : Client) (io : ClientIo) (k : Nat) (f : WsFrame) : Exec Handled :=
  if f.opcode = kPing then
    .ok { server := s, client := c.emit (.frame kPong f.payload), reactions := [.frame kPong f.payload] }
  else if f.opcode = kPong then .ok { server := s, client := c }
  else if f.opcode = kClose then
    let echo : Reaction := .frame kClose (f.payload.take 2)
    .ok { server := s, client := { c.emit echo with closeAfterWrite := true }, reactions := [echo] }
  else if f.opcode = kBinary then .ok (wsFail s c kUnsupportedData (str "binary messages are not supported"))
  else if f.opcode = kText ∨ f.opcode = kContinuation then
    if decide (f.opcode = kText) = c.inMessage then
      .ok (wsFail s c kProtocolError (str "unexpected continuation state"))
    else
      let c := addPiece c f
      if c.message.length > kMaxWsMessage then .ok (wsFail s c kTooBig (str "message too large"))
      else if f.fin then do
        let h ← handleWsMessage s c io k c.message
        .ok { h with client := { h.client with message := [] } }
      else .ok { server := s, client := c }
  else .ok { server := s, client := c }

/-- The answer of `handle_ws_frames` to input that is no frame. -/
def rejectWsInput (s : ControlServer) (c : Client) (error : Bytes) : Handled :=
  wsFail s c (if str "exceeds" <:+: error then kTooBig else kProtocolError) error

/-- `handle_ws_frames`. Its loop ends where a frame has closed the connection. -/
def handleWsFrames : Nat → ControlServer → Client → ClientIo → Nat → Exec Handled
  | 0, _, _, _, _ => .error .diverges
  | fuel + 1, s, c, io, k =>
    if c.dead ∨ c.closeAfterWrite then .ok { server := s, client := c }
    else do
      match ← wsParseFrame c.input kMaxWsMessage with
      | .needMore => .ok { server := s, client := c }
      | .error error => .ok (rejectWsInput s c error)
      | .frame f consumed =>
        let h ← handleWsFrame s { c with input := c.input.drop consumed } io k f
        let h' ← handleWsFrames fuel h.server h.client io (k + commandCount h.reactions)
        .ok (h'.after h.reactions)

/-- A response that closes the connection. -/
def respond (s : ControlServer) (c : Client) (r : Reaction) : Handled :=
  { server := s, client := { c.emit r with closeAfterWrite := true }, reactions := [r] }

/-- `serve_http`. -/
def serveHttp (s : ControlServer) (c : Client) (io : ClientIo) (req : HttpRequest) : Handled :=
  let head := req.method = str "HEAD"
  if req.method ≠ str "GET" ∧ ¬ head then
    respond s c (.response 405 textPlain (str "method not allowed\n") false [(str "Allow", str "GET, HEAD")])
  else if req.path = str "/api/stats" then
    let (s, body) := s.statsEnvelope io.clock
    respond s c (.api body head)
  else
    match s.loadAsset io (if req.path = str "/" then str "/index.html" else req.path) with
    | none => respond s c (.response 404 textPlain (str "not found\n") head [])
    | some (body, type) =>
      respond s c (.response 200 type body head
        [(str "Content-Security-Policy", str "default-src 'self'; connect-src 'self' ws: wss:; frame-ancestors 'none'")])

/-- The checks of `upgrade_websocket`: the key, or the refusal. -/
def checkUpgrade (req : HttpRequest) : Except Reaction Bytes :=
  let reject (status : Nat) (why : Bytes) (extra : List (Bytes × Bytes)) : Except Reaction Bytes :=
    .error (.response status textPlain (why ++ str "\n") false extra)
  if req.method ≠ str "GET" then reject 405 (str "WebSocket upgrade requires GET") []
  else if !headerHasToken (req.header (str "upgrade")) (str "websocket") ||
      !headerHasToken (req.header (str "connection")) (str "upgrade") then
    reject 426 (str "WebSocket upgrade required") [(str "Upgrade", str "websocket")]
  else if req.header (str "sec-websocket-version") ≠ str "13" then
    reject 426 (str "unsupported WebSocket version") [(str "Sec-WebSocket-Version", str "13")]
  else
    let key := req.header (str "sec-websocket-key")
    if key.length ≠ 24 then reject 400 (str "missing or invalid Sec-WebSocket-Key") []
    else if !originAllowed req then
      reject 403 (str "cross-origin WebSocket not allowed (Origin " ++ req.header (str "origin") ++ str ")") []
    else .ok key

/-- What `upgrade_websocket` sends to a client that it accepts. -/
def greet (s : ControlServer) (c : Client) (io : ClientIo) (key : Bytes) : Handled :=
  let c := { c.emit (.upgraded key) with websocket := true }
  let hello := wsSend s c s.helloJson
  let (s, stats) := hello.server.statsEnvelope io.clock
  (wsSend s hello.client stats).after ([.upgraded key] ++ hello.reactions)

/-- `upgrade_websocket`. -/
def upgradeWebsocket (s : ControlServer) (c : Client) (io : ClientIo) (k : Nat) (req : HttpRequest) : Exec Handled :=
  match checkUpgrade req with
  | .error refusal => .ok (respond s c refusal)
  | .ok key =>
    let h := greet s c io key
    if h.client.input ≠ [] then do
      let h' ← handleWsFrames (h.client.input.length + 1) h.server h.client io k
      .ok (h'.after h.reactions)
    else .ok h

/-- The answer of `handle_http` to a request that cannot be parsed. -/
def badRequest (s : ControlServer) (c : Client) (error : Bytes) : Handled :=
  respond s c (.response (if str "too large" <:+: error then 431 else 400) textPlain (error ++ str "\n") false [])

/-- `handle_http`. -/
def handleHttp (s : ControlServer) (c : Client) (io : ClientIo) (k : Nat) : Exec Handled := do
  match ← parseHttpRequest c.input kMaxHeaderBytes with
  | .needMore => .ok { server := s, client := c }
  | .error error => .ok (badRequest s c error)
  | .request req consumed =>
    let c := { c with input := c.input.drop consumed }
    if req.path = str "/ws" then upgradeWebsocket s c io k req else .ok (serveHttp s c io req)

/-- What `recv` answers: bytes, 0, or `errno`. An empty list of answers is `EAGAIN`. -/
inductive RecvResult where
  | data (bytes : Bytes)
  | eof
  | interrupted
  | again
  | error
  deriving DecidableEq, Repr

/-- How the loop of `read_client` ended. -/
inductive RecvEnd where
  | again
  | eof
  | error
  deriving DecidableEq, Repr

/-- The bytes that a sequence of answers yields, and how it ends. -/
def recvAll : List RecvResult → Bytes × RecvEnd
  | [] => ([], .again)
  | .data bytes :: rest => (bytes ++ (recvAll rest).1, (recvAll rest).2)
  | .interrupted :: rest => recvAll rest
  | .eof :: _ => ([], .eof)
  | .again :: _ => ([], .again)
  | .error :: _ => ([], .error)

/-- The loop of `read_client`: the client, and false where the function returns from within it. -/
def recvLoop (c : Client) : List RecvResult → Client × Bool
  | [] => (c, true)
  | .data bytes :: rest => recvLoop (if !c.closeAfterWrite then { c with input := c.input ++ bytes } else c) rest
  | .eof :: _ => ({ c with dead := true }, false)
  | .interrupted :: rest => recvLoop c rest
  | .again :: _ => (c, true)
  | .error :: _ => ({ c with dead := true }, true)

/-- `read_client`; `k` commands were sent before. -/
def readClient (s : ControlServer) (c : Client) (io : ClientIo) (k : Nat) (results : List RecvResult) : Exec Handled :=
  let before := c.input.length
  let (c, goesOn) := recvLoop c results
  if !goesOn then .ok { server := s, client := c }
  else if c.closeAfterWrite then .ok { server := s, client := c }
  else do
    let h ← if c.websocket then handleWsFrames (c.input.length + 1) s c io k else handleHttp s c io k
    .ok (h.after (if c.dead then [] else [.received (c.input.drop before)]))

/-- What `send` answers: a number of bytes, or `errno`. An empty list of answers is `EAGAIN`. -/
inductive SendResult where
  | sent (bytes : Nat)
  | interrupted
  | again
  | error
  deriving DecidableEq, Repr

/-- `write_client`. -/
def writeClient (c : Client) (results : List SendResult) : Client :=
  if c.output = [] then { c with dead := c.dead || c.closeAfterWrite }
  else
    match results with
    | [] => c
    | .sent n :: rest => if n > 0 then writeClient { c with output := c.output.drop n } rest else { c with dead := true }
    | .interrupted :: rest => writeClient c rest
    | .again :: _ => c
    | .error :: _ => { c with dead := true }

def labServer : ControlServer := { build := { version := str "1.0", assets := [] }, cfg := {} }

/-- The handshake of the protocol's own example. -/
def labUpgrade : Bytes :=
  str "GET /ws HTTP/1.1" ++ crlf ++ str "Host: lab:8080" ++ crlf ++ str "Upgrade: websocket" ++ crlf ++
    str "Connection: keep-alive, Upgrade" ++ crlf ++ str "Sec-WebSocket-Version: 13" ++ crlf ++
    str "Sec-WebSocket-Key: dGhlIHNhbXBsZSBub25jZQ==" ++ crlf ++ str "Origin: http://lab:8080" ++ crlf ++ crlf

/-- A short frame of a client whose mask is 0. -/
def labFrame (opcode : UInt8) (payload : Bytes) : Bytes :=
  [0x80 ||| opcode, 0x80 ||| payload.length.toUInt8, 0, 0, 0, 0] ++ payload

end IpcRelay.Ctl
