import IpcRelay.Ctl.ControlServer
import IpcRelay.Ctl.JsonMeaning
import IpcRelay.Lib.Incremental

/-!
# A client as a consumer of its bytes

`serveStep` is what the server does with the request or the frame at the front
of a client's input. It is stable (`serveStep_stable`), and `read_client` takes
such steps until more input is needed (`readClient_drains`), so what is done for
a client does not depend on the pieces its bytes come in.
-/

namespace IpcRelay.Ctl

open WsOpcode WsClose Machine Incremental

def Client.withInput (c : Client) (input : Bytes) : Client := { c with input := input }

def Handled.withInput (h : Handled) (input : Bytes) : Handled := { h with client := h.client.withInput input }

section Cases

variable {s : ControlServer} {c : Client} {io : ClientIo} {k : Nat} {f : WsFrame}

/-- What a frame leads to. -/
inductive FrameCase (s : ControlServer) (c : Client) (io : ClientIo) (k : Nat) (f : WsFrame) : Handled → Prop where
  | ping : f.opcode = kPing → FrameCase s c io k f ⟨s, c.emit (.frame kPong f.payload), [.frame kPong f.payload]⟩
  | pong : f.opcode = kPong → FrameCase s c io k f ⟨s, c, []⟩
  | close : f.opcode = kClose → FrameCase s c io k f
      ⟨s, { c.emit (.frame kClose (f.payload.take 2)) with closeAfterWrite := true }, [.frame kClose (f.payload.take 2)]⟩
  | binary : f.opcode = kBinary → FrameCase s c io k f
      (wsFail s c kUnsupportedData (str "binary messages are not supported"))
  | unexpected : f.opcode = kText ∨ f.opcode = kContinuation → decide (f.opcode = kText) = c.inMessage →
      FrameCase s c io k f (wsFail s c kProtocolError (str "unexpected continuation state"))
  | tooLarge : f.opcode = kText ∨ f.opcode = kContinuation → decide (f.opcode = kText) ≠ c.inMessage →
      kMaxWsMessage < (addPiece c f).message.length →
      FrameCase s c io k f (wsFail s (addPiece c f) kTooBig (str "message too large"))
  | piece : f.opcode = kText ∨ f.opcode = kContinuation → decide (f.opcode = kText) ≠ c.inMessage →
      (addPiece c f).message.length ≤ kMaxWsMessage → f.fin = false → FrameCase s c io k f ⟨s, addPiece c f, []⟩
  | message {h : Handled} : f.opcode = kText ∨ f.opcode = kContinuation → decide (f.opcode = kText) ≠ c.inMessage →
      (addPiece c f).message.length ≤ kMaxWsMessage → f.fin = true →
      handleWsMessage s (addPiece c f) io k (addPiece c f).message = .ok h →
      FrameCase s c io k f { h with client := { h.client with message := [] } }

/-- A message is answered by one text frame, after the command that it asks for. -/
theorem handleWsMessage_cases (s : ControlServer) (c : Client) (io : ClientIo) (k : Nat) (text : Bytes) :
    ∃ r, Json.parse text = .ok r ∧
      (((readRequest r).command ≠ [] ∧ ∃ s' frames error,
          handleWsMessage s c io k text = .ok ((wsSend s' c (commandResult (readRequest r).id (readRequest r).command
            error.isNone (error.getD (readRequest r).error))).after [.command (readRequest r).command frames error]) ∧
          (s' = s ∨ s' = { s with pushOnNextStats := true }) ∧ (frames, error) = s.sendCommand (readRequest r).command (io.sendError k)) ∨
        (readRequest r).command = [] ∧ handleWsMessage s c io k text =
          .ok (wsSend s c (commandResult (readRequest r).id (readRequest r).command false (readRequest r).error))) := by
  obtain ⟨r, hr, _⟩ := Json.parse_sound text 64
  refine ⟨r, hr, ?_⟩
  unfold handleWsMessage
  simp only [hr, ok_bind]
  by_cases asks : (readRequest r).command ≠ []
  · refine .inl ⟨asks, ?_⟩
    rw [if_pos asks]
    refine ⟨_, _, _, rfl, ?_, rfl⟩
    split
    · exact .inr rfl
    · exact .inl rfl
  · exact .inr ⟨not_not.1 asks, if_neg asks⟩

theorem handleWsFrame_cases (s : ControlServer) (c : Client) (io : ClientIo) (k : Nat)
    (known : f.opcode ∈ knownOpcodes) :
    ∃ h, handleWsFrame s c io k f = .ok h ∧ FrameCase s c io k f h := by
  unfold handleWsFrame
  split
  next ping => exact ⟨_, rfl, .ping ping⟩
  next =>
    split
    next pong => exact ⟨_, rfl, .pong pong⟩
    next =>
      split
      next close => exact ⟨_, rfl, .close close⟩
      next =>
        split
        next binary => exact ⟨_, rfl, .binary binary⟩
        next =>
          split
          next data =>
            split
            next unexpected => exact ⟨_, rfl, .unexpected data unexpected⟩
            next expected =>
              simp only
              split
              next large => exact ⟨_, rfl, .tooLarge data expected large⟩
              next small =>
                split
                next fin =>
                  obtain ⟨r, _, cases⟩ := handleWsMessage_cases s (addPiece c f) io k (addPiece c f).message
                  rcases cases with ⟨_, _, _, _, ran, _⟩ | ⟨_, ran⟩
                  · exact ⟨_, by rw [ran, ok_bind], .message data expected (by omega) fin ran⟩
                  · exact ⟨_, by rw [ran, ok_bind], .message data expected (by omega) fin ran⟩
                next more => exact ⟨_, rfl, .piece data expected (by omega) (by simpa using more)⟩
          next other =>
            simp only [knownOpcodes, List.mem_cons, List.not_mem_nil, or_false] at known
            grind

/-- A frame changes neither the input nor what kind of connection it is. -/
theorem FrameCase.keeps {h : Handled} (fc : FrameCase s c io k f h) :
    h.client.input = c.input ∧ h.client.websocket = c.websocket ∧ h.client.dead = c.dead ∧ h.client.fd = c.fd := by
  cases fc with
  | message _ _ _ _ ran =>
    obtain ⟨r, _, cases⟩ := handleWsMessage_cases s (addPiece c f) io k (addPiece c f).message
    rcases cases with ⟨_, _, _, _, ran', _⟩ | ⟨_, ran'⟩
    · rw [ran'] at ran
      cases ran
      exact ⟨rfl, rfl, rfl, rfl⟩
    · rw [ran'] at ran
      cases ran
      exact ⟨rfl, rfl, rfl, rfl⟩
  | _ => exact ⟨rfl, rfl, rfl, rfl⟩

theorem handleWsMessage_withInput (text input : Bytes) :
    handleWsMessage s (c.withInput input) io k text = (handleWsMessage s c io k text).map (·.withInput input) := by
  obtain ⟨r, hr, _⟩ := Json.parse_sound text 64
  simp only [handleWsMessage, hr, ok_bind]
  split <;> rfl

theorem handleWsFrame_withInput (s : ControlServer) (c : Client) (io : ClientIo) (k : Nat) (f : WsFrame)
    (input : Bytes) :
    handleWsFrame s (c.withInput input) io k f = (handleWsFrame s c io k f).map (·.withInput input) := by
  have piece : addPiece (c.withInput input) f = (addPiece c f).withInput input := rfl
  unfold handleWsFrame
  simp only [piece, handleWsMessage_withInput]
  split
  · rfl
  · split
    · rfl
    · split
      · rfl
      · split
        · rfl
        · split
          · rw [show (c.withInput input).inMessage = c.inMessage from rfl]
            split
            · rfl
            · rw [show ((addPiece c f).withInput input).message = (addPiece c f).message from rfl]
              split
              · rfl
              · split
                · cases handleWsMessage s (addPiece c f) io k (addPiece c f).message <;> rfl
                · rfl
          · rfl

end Cases

section Front

/-- What stands at the front of a client's input. -/
inductive Found where
  | badRequest (error : Bytes)
  | request (req : HttpRequest)
  | badFrame (error : Bytes)
  | frame (f : WsFrame)

/-- The front of the input and what is behind it, if enough has come. What cannot be parsed is not taken. -/
def front (websocket : Bool) (input : Bytes) : Option (Found × Bytes) :=
  if websocket then
    match wsParseFrame input kMaxWsMessage with
    | .ok (.error error) => some (.badFrame error, input)
    | .ok (.frame f consumed) => some (.frame f, input.drop consumed)
    | _ => none
  else
    match parseHttpRequest input kMaxHeaderBytes with
    | .ok (.error error) => some (.badRequest error, input)
    | .ok (.request req consumed) => some (.request req, input.drop consumed)
    | _ => none

theorem front_frames (input : Bytes) : front true input = match wsParseFrame input kMaxWsMessage with
    | .ok (.error error) => some (.badFrame error, input)
    | .ok (.frame f consumed) => some (.frame f, input.drop consumed)
    | _ => none := rfl

theorem front_request (input : Bytes) : front false input = match parseHttpRequest input kMaxHeaderBytes with
    | .ok (.error error) => some (.badRequest error, input)
    | .ok (.request req consumed) => some (.request req, input.drop consumed)
    | _ => none := rfl

variable {ws : Bool} {input rest : Bytes} {x : Found}

theorem front_stable (h : front ws input = some (x, rest)) (more : Bytes) :
    front ws (input ++ more) = some (x, rest ++ more) := by
  unfold front at h ⊢
  cases ws with
  | true =>
    obtain ⟨r, ran, stays, inside⟩ := parseFrame_append input more kMaxWsMessage
    simp only [ran, if_true] at h ⊢
    cases r with
    | needMore => cases h
    | error error =>
      rw [stays WsParse.noConfusion]
      cases h
      rfl
    | frame f consumed =>
      rw [stays WsParse.noConfusion]
      cases h
      simp only
      rw [List.drop_append_of_le_length (inside f consumed rfl).1]
  | false =>
    obtain ⟨r, ran, stays⟩ := parse_append input more kMaxHeaderBytes
    simp only [ran, Bool.false_eq_true, if_false] at h ⊢
    cases r with
    | needMore => cases h
    | error error =>
      rw [stays HttpParse.noConfusion]
      cases h
      rfl
    | request req consumed =>
      rw [stays HttpParse.noConfusion]
      cases h
      simp only
      rw [List.drop_append_of_le_length (consumed_bounds ran).2]

/-- A frame that the parser accepts. -/
structure WsFrame.Legal (f : WsFrame) : Prop where
  known : f.opcode ∈ knownOpcodes
  bounded : f.payload.length ≤ kMaxWsMessage
  control : f.opcode &&& 0x08 ≠ 0 → f.payload.length ≤ 125

/-- What is found: something that cannot be parsed, or a request or a frame that takes some of the input. -/
inductive FoundCase (ws : Bool) (input rest : Bytes) : Found → Prop where
  | badRequest {error : Bytes} : ws = false → rest = input → FoundCase ws input rest (.badRequest error)
  | request {req : HttpRequest} : ws = false → rest.length < input.length → FoundCase ws input rest (.request req)
  | badFrame {error : Bytes} : ws = true → rest = input → FoundCase ws input rest (.badFrame error)
  | frame {f : WsFrame} : ws = true → rest.length < input.length → f.Legal → FoundCase ws input rest (.frame f)

theorem front_cases (h : front ws input = some (x, rest)) : FoundCase ws input rest x := by
  unfold front at h
  cases ws with
  | true =>
    obtain ⟨r, ran, _, inside⟩ := parseFrame_append input [] kMaxWsMessage
    simp only [ran, if_true] at h
    cases r with
    | needMore => cases h
    | error error =>
      cases h
      exact .badFrame rfl rfl
    | frame f consumed =>
      cases h
      obtain ⟨le, six, known, bounded, control⟩ := inside f consumed rfl
      refine .frame rfl ?_ ⟨known, bounded, fun high => (control high).2⟩
      rw [List.length_drop]
      omega
  | false =>
    obtain ⟨r, ran⟩ := parse_total input kMaxHeaderBytes
    simp only [ran, Bool.false_eq_true, if_false] at h
    cases r with
    | needMore => cases h
    | error error =>
      cases h
      exact .badRequest rfl rfl
    | request req consumed =>
      cases h
      obtain ⟨four, le⟩ := consumed_bounds ran
      refine .request rfl ?_
      rw [List.length_drop]
      omega

end Front

section Consumer

/-- The server and the client while bytes of the client are handled; the input is kept beside it. -/
structure Serving where
  server : ControlServer
  client : Client
  /-- The number of commands that were sent for the client. -/
  sent : Nat

def Handled.serving (h : Handled) (sent : Nat) : Serving := ⟨h.server, h.client, sent + commandCount h.reactions⟩

/-- The answer to a request. -/
def answer (io : ClientIo) (s : ControlServer) (c : Client) (req : HttpRequest) : Handled :=
  if req.path = str "/ws" then
    match checkUpgrade req with
    | .error refusal => respond s c refusal
    | .ok key => greet s c io key
  else serveHttp s c io req

/-- What was found is handled. -/
def serveFound (io : ClientIo) (v : Serving) : Found → Exec Handled
  | .badRequest error => .ok (badRequest v.server v.client error)
  | .request req => .ok (answer io v.server v.client req)
  | .badFrame error => .ok (rejectWsInput v.server v.client error)
  | .frame f => handleWsFrame v.server v.client io v.sent f

/-- The front of the input is handled. -/
def serveStep (io : ClientIo) (v : Serving) (input : Bytes) : Option (Serving × Bytes × List Reaction) :=
  if v.client.dead ∨ v.client.closeAfterWrite then none
  else
    match front v.client.websocket input with
    | none => none
    | some (x, rest) =>
      match serveFound io v x with
      | .ok h => some (h.serving v.sent, rest, h.reactions)
      | .error _ => none

theorem serveStep_stable (io : ClientIo) : Stable (serveStep io) := by
  intro v input v' rest o more h
  unfold serveStep at h ⊢
  split at h
  · cases h
  next alive =>
    rw [if_neg alive]
    cases found : front v.client.websocket input with
    | none =>
      rw [found] at h
      cases h
    | some r =>
      rw [found] at h
      rw [front_stable found more]
      simp only at h ⊢
      cases ran : serveFound io v r.1 with
      | error e =>
        rw [ran] at h
        cases h
      | ok d =>
        rw [ran] at h
        cases h
        rfl

theorem serveStep_closed {io : ClientIo} {v : Serving} (closed : v.client.dead ∨ v.client.closeAfterWrite)
    (input : Bytes) : serveStep io v input = none := by
  unfold serveStep
  rw [if_pos closed]

theorem serveStep_waits {io : ClientIo} {v : Serving} {input : Bytes} (waits : front v.client.websocket input = none) :
    serveStep io v input = .none := by
  unfold serveStep
  rw [waits]
  split <;> rfl

theorem serveStep_found {io : ClientIo} {v : Serving} {input rest : Bytes} {x : Found} {h : Handled}
    (alive : ¬ (v.client.dead ∨ v.client.closeAfterWrite)) (found : front v.client.websocket input = some (x, rest))
    (ran : serveFound io v x = .ok h) : serveStep io v input = some (h.serving v.sent, rest, h.reactions) := by
  unfold serveStep
  rw [if_neg alive, found]
  simp only [ran]

/-- What is left of a function's input stands beside its client. -/
abbrev Handled.idle (h : Handled) (k : Nat) : Serving := ⟨h.server, h.client.withInput [], k + commandCount h.reactions⟩

theorem handleWsFrames_drains (io : ClientIo) (fuel : Nat) (s : ControlServer) (c : Client) (k : Nat)
    (ws : c.websocket) (enough : c.input.length < fuel) :
    ∃ h, handleWsFrames fuel s c io k = .ok h ∧
      Drains (serveStep io) ⟨s, c.withInput [], k⟩ c.input (h.idle k) h.client.input h.reactions := by
  induction fuel generalizing s c k with
  | zero => omega
  | succ fuel ih =>
    unfold handleWsFrames
    by_cases closed : c.dead ∨ c.closeAfterWrite
    · rw [if_pos closed]
      exact ⟨_, rfl, .more (serveStep_closed closed _)⟩
    rw [if_neg closed]
    obtain ⟨r, ran, _, inside⟩ := parseFrame_append c.input [] kMaxWsMessage
    have found := front_frames c.input
    rw [← ws, ran] at found
    rw [ran, ok_bind]
    cases r with
    | needMore => exact ⟨_, rfl, .more (serveStep_waits found)⟩
    | error error =>
      have step : serveStep io ⟨s, c.withInput [], k⟩ c.input = some ((rejectWsInput s (c.withInput []) error).serving k,
          c.input, (rejectWsInput s c error).reactions) := serveStep_found closed found rfl
      have whole := Drains.item step (.more (serveStep_closed (.inr rfl) _))
      rw [List.append_nil] at whole
      exact ⟨_, rfl, whole⟩
    | frame f consumed =>
      obtain ⟨le, six, known, _⟩ := inside f consumed rfl
      obtain ⟨h, one, fc⟩ := handleWsFrame_cases s (c.withInput []) io k known
      obtain ⟨_, kind, _, _⟩ := fc.keeps
      have here := handleWsFrame_withInput s (c.withInput []) io k f (c.input.drop consumed)
      rw [one] at here
      have shorter : (c.input.drop consumed).length < fuel := by
        rw [List.length_drop]
        omega
      obtain ⟨h', rest, drains⟩ := ih h.server (h.client.withInput (c.input.drop consumed))
        (k + commandCount h.reactions) (kind.trans ws) shorter
      have next : h.serving k = ⟨h.server, (h.client.withInput (c.input.drop consumed)).withInput [],
          k + commandCount h.reactions⟩ := by
        have empty : h.client.input = [] := fc.keeps.1
        unfold Handled.serving Client.withInput
        rw [← empty]
      refine ⟨h'.after h.reactions, ?_, ?_⟩
      · change (handleWsFrame s ((c.withInput []).withInput (c.input.drop consumed)) io k f >>= _) = _
        rw [here]
        change (handleWsFrames fuel h.server (h.client.withInput (c.input.drop consumed)) io _ >>= _) = _
        rw [show (h.withInput (c.input.drop consumed)).reactions = h.reactions from rfl, rest]
        rfl
      · have step : serveStep io ⟨s, c.withInput [], k⟩ c.input = some (h.serving k, c.input.drop consumed, h.reactions) :=
          serveStep_found closed found one
        have whole := Drains.item step (next ▸ drains)
        unfold Handled.idle Handled.after commandCount at *
        rw [List.countP_append, ← Nat.add_assoc]
        exact whole

/-- A file, an error, or the statistics. -/
theorem serveHttp_cases (io : ClientIo) (s : ControlServer) (req : HttpRequest) :
    (∃ head, ∀ c, serveHttp s c io req = respond (s.statsEnvelope io.clock).1 c (.api (s.statsEnvelope io.clock).2 head)) ∨
      ∃ status type body head extra, ∀ c, serveHttp s c io req = respond s c (.response status type body head extra) := by
  unfold serveHttp
  simp only
  split
  · exact .inr ⟨_, _, _, _, _, fun _ => rfl⟩
  · split
    · exact .inl ⟨_, fun _ => rfl⟩
    · split
      · exact .inr ⟨_, _, _, _, _, fun _ => rfl⟩
      · exact .inr ⟨_, _, _, _, _, fun _ => rfl⟩

theorem checkUpgrade_refusal {req : HttpRequest} {r : Reaction} (h : checkUpgrade req = .error r) :
    ∃ status type body head extra, r = .response status type body head extra := by
  unfold checkUpgrade at h
  simp only at h
  split at h
  · cases h
    exact ⟨_, _, _, _, _, rfl⟩
  · split at h
    · cases h
      exact ⟨_, _, _, _, _, rfl⟩
    · split at h
      · cases h
        exact ⟨_, _, _, _, _, rfl⟩
      · split at h
        · cases h
          exact ⟨_, _, _, _, _, rfl⟩
        · split at h
          · cases h
            exact ⟨_, _, _, _, _, rfl⟩
          · cases h

/-- A response ends the handling of a client. -/
theorem respond_drains {io : ClientIo} {s s' : ControlServer} {c : Client} {k : Nat} {input rest : Bytes} {r : Reaction}
    (step : serveStep io ⟨s, c.withInput [], k⟩ input =
      some ((respond s' (c.withInput []) r).serving k, rest, [r])) :
    Drains (serveStep io) ⟨s, c.withInput [], k⟩ input ((respond s' (c.withInput rest) r).idle k) rest [r] := by
  rw [← List.append_nil [r]]
  exact .item step (.more (serveStep_closed (.inr rfl) _))

/-- Frames behind the request are handled with it. -/
theorem greet_drains {io : ClientIo} {s : ControlServer} {c : Client} {k : Nat} {input rest key : Bytes}
    (step : serveStep io ⟨s, c.withInput [], k⟩ input =
      some ((greet s (c.withInput []) io key).serving k, rest, (greet s (c.withInput []) io key).reactions)) :
    let g := greet s (c.withInput rest) io key
    ∃ h, (if rest ≠ [] then do
          let h' ← handleWsFrames (rest.length + 1) g.server g.client io k
          .ok (h'.after g.reactions)
        else .ok g) = .ok h ∧
      Drains (serveStep io) ⟨s, c.withInput [], k⟩ input (h.idle k) h.client.input h.reactions := by
  intro g
  by_cases empty : rest = []
  · subst empty
    refine ⟨_, rfl, ?_⟩
    have waits : serveStep io (g.serving k) [] = none := serveStep_waits rfl
    have whole := Drains.item step (.more waits)
    rw [List.append_nil] at whole
    exact whole
  · rw [if_pos empty]
    obtain ⟨h, ran, drains⟩ := handleWsFrames_drains io (rest.length + 1) g.server g.client k rfl
      (Nat.lt_succ_self _)
    exact ⟨_, bind_ok.2 ⟨h, ran, rfl⟩, .item step drains⟩

theorem handleHttp_drains (io : ClientIo) (s : ControlServer) (c : Client) (k : Nat)
    (alive : ¬ (c.dead ∨ c.closeAfterWrite)) (http : ¬ c.websocket) :
    ∃ h, handleHttp s c io k = .ok h ∧
      Drains (serveStep io) ⟨s, c.withInput [], k⟩ c.input (h.idle k) h.client.input h.reactions := by
  obtain ⟨r, ran⟩ := parse_total c.input kMaxHeaderBytes
  have found := front_request c.input
  rw [← Bool.eq_false_iff.2 http, ran] at found
  unfold handleHttp
  rw [ran, ok_bind]
  cases r with
  | needMore => exact ⟨_, rfl, .more (serveStep_waits found)⟩
  | error error => exact ⟨_, rfl, respond_drains (serveStep_found alive found rfl)⟩
  | request req consumed =>
    have step := @serveStep_found io ⟨s, c.withInput [], k⟩ _ _ _ _ alive found rfl
    unfold answer at step
    simp only at step ⊢
    by_cases path : req.path = str "/ws"
    · rw [if_pos path] at step ⊢
      unfold upgradeWebsocket
      cases check : checkUpgrade req with
      | error refusal =>
        rw [check] at step
        exact ⟨_, rfl, respond_drains step⟩
      | ok key =>
        rw [check] at step
        exact greet_drains step
    · rw [if_neg path] at step ⊢
      refine ⟨_, rfl, ?_⟩
      rcases serveHttp_cases io s req with ⟨_, served⟩ | ⟨_, _, _, _, _, served⟩
      · rw [served] at step ⊢
        exact respond_drains step
      · rw [served] at step ⊢
        exact respond_drains step

/-- What it leads to. -/
inductive ServeCase (io : ClientIo) (v : Serving) : Found → Handled → Prop where
  | badFrame {error : Bytes} : v.client.websocket →
      ServeCase io v (.badFrame error) (rejectWsInput v.server v.client error)
  | frame {f : WsFrame} {h : Handled} : v.client.websocket → f.Legal → FrameCase v.server v.client io v.sent f h →
      ServeCase io v (.frame f) h
  | badRequest {error : Bytes} : ¬ v.client.websocket →
      ServeCase io v (.badRequest error) (badRequest v.server v.client error)
  | upgrade {req : HttpRequest} {key : Bytes} : ¬ v.client.websocket → req.path = str "/ws" →
      checkUpgrade req = .ok key → ServeCase io v (.request req) (greet v.server v.client io key)
  | api {req : HttpRequest} {head : Bool} : ¬ v.client.websocket → req.path ≠ str "/ws" →
      ServeCase io v (.request req)
        (respond (v.server.statsEnvelope io.clock).1 v.client (.api (v.server.statsEnvelope io.clock).2 head))
  | response {req : HttpRequest} {status : Nat} {type body : Bytes} {head : Bool} {extra : List (Bytes × Bytes)} :
      ¬ v.client.websocket → (req.path = str "/ws" → ∃ r, checkUpgrade req = .error r) →
      ServeCase io v (.request req) (respond v.server v.client (.response status type body head extra))

variable {io : ClientIo} {v v' : Serving} {input rest : Bytes} {rs : List Reaction} {x : Found} {d : Handled}

theorem answer_case (io : ClientIo) (v : Serving) (http : ¬ v.client.websocket) (req : HttpRequest) :
    ServeCase io v (.request req) (answer io v.server v.client req) := by
  unfold answer
  by_cases path : req.path = str "/ws"
  · rw [if_pos path]
    cases check : checkUpgrade req with
    | error refusal =>
      obtain ⟨_, _, _, _, _, rfl⟩ := checkUpgrade_refusal check
      exact .response http fun _ => ⟨_, check⟩
    | ok key => exact .upgrade http path check
  · rw [if_neg path]
    rcases serveHttp_cases io v.server req with ⟨_, served⟩ | ⟨_, _, _, _, _, served⟩
    · rw [served]
      exact .api http path
    · rw [served]
      exact .response http fun same => absurd same path

theorem serveFound_cases (io : ClientIo) (v : Serving) (found : FoundCase v.client.websocket input rest x) :
    ∃ d, serveFound io v x = .ok d ∧ ServeCase io v x d := by
  cases found with
  | badFrame ws _ => exact ⟨_, rfl, .badFrame ws⟩
  | badRequest http _ => exact ⟨_, rfl, .badRequest (by simp [http])⟩
  | request http _ => exact ⟨_, rfl, answer_case io v (by simp [http]) _⟩
  | frame ws _ legal =>
    obtain ⟨d, one, fc⟩ := handleWsFrame_cases v.server v.client io v.sent legal.known
    exact ⟨d, one, .frame ws legal fc⟩

/-- Of an open client, whatever is found is handled. -/
theorem serveStep_none (alive : ¬ (v.client.dead ∨ v.client.closeAfterWrite)) (waits : serveStep io v input = none) :
    front v.client.websocket input = none := by
  cases found : front v.client.websocket input with
  | none => rfl
  | some r =>
    obtain ⟨d, ran, _⟩ := serveFound_cases io v (front_cases found)
    rw [serveStep_found alive found ran] at waits
    cases waits

/-- All that a step can do. -/
theorem serveStep_cases (h : serveStep io v input = some (v', rest, rs)) :
    ¬ (v.client.dead ∨ v.client.closeAfterWrite) ∧ ∃ x d, front v.client.websocket input = some (x, rest) ∧
      v' = d.serving v.sent ∧ rs = d.reactions ∧ ServeCase io v x d := by
  unfold serveStep at h
  split at h
  · cases h
  next alive =>
    refine ⟨alive, ?_⟩
    cases found : front v.client.websocket input with
    | none =>
      rw [found] at h
      cases h
    | some r =>
      obtain ⟨x, rest⟩ := r
      obtain ⟨d, ran, sc⟩ := serveFound_cases io v (front_cases found)
      simp only [found, ran] at h
      cases h
      exact ⟨x, d, rfl, rfl, rfl, sc⟩

theorem ServeCase.keeps (sc : ServeCase io v x d) :
    d.client.fd = v.client.fd ∧ d.client.dead = v.client.dead := by
  cases sc with
  | frame _ _ fc =>
    obtain ⟨_, _, dead, fd⟩ := fc.keeps
    exact ⟨fd, dead⟩
  | _ => exact ⟨rfl, rfl⟩

theorem drains_keeps {os : List Reaction} (h : Drains (serveStep io) v input v' rest os) :
    v'.client.fd = v.client.fd ∧ v'.client.dead = v.client.dead := by
  refine h.keeps (P := fun u => u.client.fd = v.client.fd ∧ u.client.dead = v.client.dead) ?_ ⟨rfl, rfl⟩
  rintro u b u' b' o one ⟨fd, dead⟩
  obtain ⟨_, x, d, _, rfl, _, sc⟩ := serveStep_cases one
  exact ⟨sc.keeps.1.trans fd, sc.keeps.2.trans dead⟩

end Consumer

section Reading

variable (s : ControlServer) (c : Client) (io : ClientIo) (k : Nat) (results : List RecvResult)

/-- What the loop of `read_client` leaves: it reads to the end of the answers, and appends what it reads
unless the client is being closed. -/
theorem recvLoop_eq : recvLoop c results =
    ({ c with
      input := if c.closeAfterWrite then c.input else c.input ++ (recvAll results).1
      dead := c.dead || !decide ((recvAll results).2 = .again) }, !decide ((recvAll results).2 = .eof)) := by
  induction results generalizing c with
  | nil => simp [recvLoop, recvAll]
  | cons r results ih =>
    cases r with
    | data bytes =>
      rw [recvLoop, ih]
      cases closing : c.closeAfterWrite
      · simp only [recvAll, Bool.false_eq_true, Bool.not_false, if_true, if_false, List.append_assoc]
        rfl
      · simp only [recvAll, Bool.false_eq_true, Bool.not_true, if_true, if_false, closing]
        rfl
    | interrupted => rw [recvLoop, ih, recvAll]
    | _ => simp [recvLoop, recvAll]

/-- A client that is being closed is read to see when it has gone. -/
theorem readClient_closing (closing : c.closeAfterWrite) :
    readClient s c io k results =
      .ok ⟨s, { c with dead := c.dead || !decide ((recvAll results).2 = .again) }, []⟩ := by
  unfold readClient
  rw [recvLoop_eq]
  simp only [closing, if_true]
  split <;> rfl

/-- Where `recv` answers 0, nothing is handled. -/
theorem readClient_eof (eof : (recvAll results).2 = .eof) :
    ∃ input, readClient s c io k results = .ok ⟨s, { c with input := input, dead := true }, []⟩ := by
  refine ⟨if c.closeAfterWrite then c.input else c.input ++ (recvAll results).1, ?_⟩
  unfold readClient
  rw [recvLoop_eq]
  simp [eof]

/-- A request of a client that is gone is still answered. -/
theorem handleHttp_dead (gone : c.dead) (http : ¬ c.websocket) : ∃ h, handleHttp s c io k = .ok h ∧
    (h = ⟨s, c, []⟩ ∧ front false c.input = none ∨
      ∃ x d rest, front false c.input = some (x, rest) ∧ ServeCase io ⟨s, c.withInput [], k⟩ x d ∧ h = d.withInput rest) := by
  obtain ⟨r, ran⟩ := parse_total c.input kMaxHeaderBytes
  have found := front_request c.input
  rw [ran] at found
  unfold handleHttp
  rw [ran, ok_bind]
  cases r with
  | needMore => exact ⟨_, rfl, .inl ⟨rfl, found⟩⟩
  | error error => exact ⟨_, rfl, .inr ⟨_, _, c.input, found, .badRequest http, rfl⟩⟩
  | request req consumed =>
    refine ⟨(answer io s (c.withInput []) req).withInput (c.input.drop consumed), ?_,
      .inr ⟨.request req, _, _, found, answer_case io ⟨s, c.withInput [], k⟩ http req, rfl⟩⟩
    unfold answer
    simp only
    by_cases path : req.path = str "/ws"
    · rw [if_pos path, if_pos path]
      unfold upgradeWebsocket
      cases check : checkUpgrade req with
      | error refusal => rfl
      | ok key =>
        have stops : ∀ fuel (g : Handled), g.client.dead → handleWsFrames (fuel + 1) g.server g.client io k =
            .ok { server := g.server, client := g.client } := fun fuel g dead => if_pos (.inl dead)
        simp only
        split
        · rw [stops _ _ gone, ok_bind]
          rfl
        · rfl
    · rw [if_neg path, if_neg path]
      rcases serveHttp_cases io s req with ⟨_, served⟩ | ⟨_, _, _, _, _, served⟩
      · rw [served, served]
        rfl
      · rw [served, served]
        rfl

/-- Of an open client, all that it has sent is handled as far as it goes. -/
theorem readClient_drains (alive : ¬ (c.dead ∨ c.closeAfterWrite)) (calm : (recvAll results).2 = .again) :
    ∃ h rs, readClient s c io k results = .ok h ∧ h.reactions = .received (recvAll results).1 :: rs ∧
      Drains (serveStep io) ⟨s, c.withInput [], k⟩ (c.input ++ (recvAll results).1) (h.idle k) h.client.input rs := by
  obtain ⟨living, opened⟩ := not_or.1 alive
  have loop : recvLoop c results = (c.withInput (c.input ++ (recvAll results).1), true) := by
    rw [recvLoop_eq]
    simp [opened, calm, Client.withInput]
  unfold readClient
  simp only [loop]
  have still : ¬ (c.withInput (c.input ++ (recvAll results).1)).closeAfterWrite := opened
  have lives : ¬ (c.withInput (c.input ++ (recvAll results).1)).dead := living
  rw [if_neg (by simp), if_neg still, if_neg lives]
  have rest : (c.withInput (c.input ++ (recvAll results).1)).input.drop c.input.length = (recvAll results).1 := by
    unfold Client.withInput
    rw [List.drop_left]
  rw [rest]
  by_cases ws : c.websocket
  · rw [if_pos (show (c.withInput (c.input ++ (recvAll results).1)).websocket from ws)]
    obtain ⟨h, ran, drains⟩ := handleWsFrames_drains io _ s (c.withInput (c.input ++ (recvAll results).1)) k ws
      (Nat.lt_succ_self _)
    exact ⟨_, h.reactions, bind_ok.2 ⟨h, ran, rfl⟩, rfl, drains⟩
  · rw [if_neg (show ¬ (c.withInput (c.input ++ (recvAll results).1)).websocket from ws)]
    obtain ⟨h, ran, drains⟩ := handleHttp_drains io s (c.withInput (c.input ++ (recvAll results).1)) k alive ws
    exact ⟨_, h.reactions, bind_ok.2 ⟨h, ran, rfl⟩, rfl, drains⟩

/-- What a call of `read_client` does. -/
inductive ReadCase (s : ControlServer) (c : Client) (io : ClientIo) (k : Nat) (results : List RecvResult) :
    Handled → Prop where
  | closing : c.closeAfterWrite →
      ReadCase s c io k results ⟨s, { c with dead := c.dead || !decide ((recvAll results).2 = .again) }, []⟩
  | gone {input : Bytes} : (recvAll results).2 ≠ .again →
      ReadCase s c io k results ⟨s, { c with input := input, dead := true }, []⟩
  | last {x : Found} {d : Handled} {rest : Bytes} : ¬ c.closeAfterWrite → ¬ c.websocket →
      (recvAll results).2 = .error → front false (c.input ++ (recvAll results).1) = some (x, rest) →
      ServeCase io ⟨s, { c with input := [], dead := true }, k⟩ x d → ReadCase s c io k results (d.withInput rest)
  | handled {h : Handled} {rs : List Reaction} : ¬ (c.dead ∨ c.closeAfterWrite) → (recvAll results).2 = .again →
      h.reactions = .received (recvAll results).1 :: rs →
      Drains (serveStep io) ⟨s, c.withInput [], k⟩ (c.input ++ (recvAll results).1) (h.idle k) h.client.input rs →
      ReadCase s c io k results h

/-- A call of `read_client` never faults. -/
theorem readClient_cases (living : ¬ c.dead) : ∃ h, readClient s c io k results = .ok h ∧ ReadCase s c io k results h := by
  by_cases closing : c.closeAfterWrite
  · exact ⟨_, readClient_closing s c io k results closing, .closing closing⟩
  cases ending : (recvAll results).2 with
  | again =>
    have alive : ¬ (c.dead ∨ c.closeAfterWrite) := by simp [living, closing]
    obtain ⟨h, rs, ran, reactions, drains⟩ := readClient_drains s c io k results alive ending
    exact ⟨h, ran, .handled alive ending reactions drains⟩
  | eof =>
    obtain ⟨input, ran⟩ := readClient_eof s c io k results ending
    exact ⟨_, ran, .gone (by simp [ending])⟩
  | error =>
    obtain ⟨g, hg⟩ : ∃ g, g = { c with input := c.input ++ (recvAll results).1, dead := true } := ⟨_, rfl⟩
    have loop : recvLoop c results = (g, true) := by
      rw [recvLoop_eq, hg, ending]
      simp [closing]
    have dead : g.dead := by rw [hg]
    have opened : ¬ g.closeAfterWrite := by
      rw [hg]
      exact closing
    unfold readClient
    simp only [loop]
    rw [if_neg (by simp), if_neg opened, if_pos dead]
    by_cases ws : c.websocket
    · have frames : handleWsFrames (g.input.length + 1) s g io k = .ok ⟨s, g, []⟩ := if_pos (.inl dead)
      rw [if_pos (by rw [hg]; exact ws), frames]
      refine ⟨_, rfl, ?_⟩
      rw [hg]
      exact .gone (by simp [ending])
    · have http : ¬ g.websocket := by
        rw [hg]
        exact ws
      obtain ⟨h, ran, what⟩ := handleHttp_dead s g io k dead http
      rw [if_neg http, ran]
      refine ⟨_, rfl, ?_⟩
      rcases what with ⟨rfl, _⟩ | ⟨x, d, rest, found, sc, rfl⟩
      · rw [hg]
        exact .gone (by simp [ending])
      · rw [hg] at sc found
        change ReadCase s c io k results (d.withInput rest)
        exact .last closing ws ending found sc

end Reading

section Chunks

/-- Successive calls of `read_client`; `k` commands were sent before. -/
def readCalls (io : ClientIo) : ControlServer → Client → Nat → List (List RecvResult) → Exec Handled
  | s, c, _, [] => .ok ⟨s, c, []⟩
  | s, c, k, results :: calls => do
    let h ← readClient s c io k results
    let h' ← readCalls io h.server h.client (k + commandCount h.reactions) calls
    .ok (h'.after h.reactions)

/-- What is done for a client, but for the reading. -/
def effects (rs : List Reaction) : List Reaction := rs.filter fun
  | .received _ => false
  | _ => true

/-- The bytes that calls read. -/
def callBytes (calls : List (List RecvResult)) : Bytes := calls.flatMap fun results => (recvAll results).1

/-- Each call ends where `recv` would block. -/
def Calm (calls : List (List RecvResult)) : Prop := ∀ results ∈ calls, (recvAll results).2 = .again

instance (calls : List (List RecvResult)) : Decidable (Calm calls) := inferInstanceAs (Decidable (∀ _ ∈ calls, _))

theorem ServeCase.effective {io : ClientIo} {v : Serving} {x : Found} {d : Handled} (sc : ServeCase io v x d) : effects d.reactions = d.reactions := by
  cases sc with
  | frame _ _ fc =>
    cases fc with
    | message _ _ _ _ ran =>
      obtain ⟨_, _, cases⟩ := handleWsMessage_cases v.server (addPiece v.client _) io v.sent (addPiece v.client _).message
      rcases cases with ⟨_, _, _, _, ran', _⟩ | ⟨_, ran'⟩
      · cases ran'.symm.trans ran
        rfl
      · cases ran'.symm.trans ran
        rfl
    | _ => rfl
  | _ => rfl

/-- What the parsers do is no reading. -/
theorem drains_effective {io : ClientIo} {v v' : Serving} {input rest : Bytes} {os : List Reaction}
    (h : Drains (serveStep io) v input v' rest os) : effects os = os := by
  induction h with
  | more _ => rfl
  | item one _ ih =>
    obtain ⟨_, x, d, _, _, rfl, sc⟩ := serveStep_cases one
    unfold effects at *
    rw [List.filter_append, ih, show List.filter _ d.reactions = _ from sc.effective]

/-- Calls that read a stream handle it as it would be handled at once. -/
theorem readCalls_drains (io : ClientIo) (s : ControlServer) (c : Client) (k : Nat) (calls : List (List RecvResult))
    (calm : Calm calls) (living : ¬ c.dead) (idle : serveStep io ⟨s, c.withInput [], k⟩ c.input = none) :
    ∃ h rest, readCalls io s c k calls = .ok h ∧
      Drains (serveStep io) ⟨s, c.withInput [], k⟩ (c.input ++ callBytes calls) (h.idle k) rest (effects h.reactions) := by
  induction calls generalizing s c k with
  | nil =>
    refine ⟨_, c.input, rfl, ?_⟩
    rw [show callBytes [] = [] from rfl, List.append_nil]
    exact .more idle
  | cons results calls ih =>
    have first : (recvAll results).2 = .again := calm _ (List.mem_cons_self ..)
    have others : Calm calls := fun r mem => calm r (List.mem_cons_of_mem _ mem)
    unfold readCalls
    by_cases closing : c.closeAfterWrite
    · have stays : { c with dead := c.dead || !decide ((recvAll results).2 = .again) } = c := by
        rw [first]
        simp
      obtain ⟨h, rest, ran, drains⟩ := ih s c k others living idle
      rw [readClient_closing s c io k results closing, stays, ok_bind]
      refine ⟨_, c.input ++ callBytes (results :: calls), bind_ok.2 ⟨h, ran, rfl⟩, ?_⟩
      obtain ⟨same, _, idle'⟩ := drains.functional (.more (serveStep_closed (.inr closing) _))
      change Drains _ _ _ (h.idle k) _ (effects h.reactions)
      rw [same, idle']
      exact .more (serveStep_closed (.inr closing) _)
    · obtain ⟨h, rs, ran, reactions, drains⟩ := readClient_drains s c io k results (by simp [living, closing]) first
      have lives : ¬ h.client.dead := by
        rw [show h.client.dead = c.dead from (drains_keeps drains).2]
        exact living
      obtain ⟨h', rest, ran', drains'⟩ := ih h.server h.client (k + commandCount h.reactions) others lives drains.waits
      rw [ran, ok_bind]
      refine ⟨_, rest, bind_ok.2 ⟨h', ran', rfl⟩, ?_⟩
      have whole := drains.append (serveStep_stable io) drains'
      rw [List.append_assoc] at whole
      have effect : effects (h'.after h.reactions).reactions = rs ++ effects h'.reactions := by
        unfold Handled.after effects at *
        rw [List.filter_append, reactions, List.filter_cons_of_neg (by simp),
          show List.filter _ rs = rs from drains_effective drains]
      have count : commandCount (h'.after h.reactions).reactions = commandCount h.reactions + commandCount h'.reactions :=
        List.countP_append
      unfold Handled.idle at whole ⊢
      rw [effect, count, ← Nat.add_assoc]
      exact whole

/-- What is done for a client does not depend on how its bytes were cut into the calls that read them. A read out
of bounds would be a fault, so there is none. -/
theorem reactions_of_chunks (io : ClientIo) (s : ControlServer) (fd : Nat) (calls calls' : List (List RecvResult))
    (calm : Calm calls) (calm' : Calm calls') (same : callBytes calls = callBytes calls') :
    ∃ h h', readCalls io s { fd := fd } 0 calls = .ok h ∧ readCalls io s { fd := fd } 0 calls' = .ok h' ∧
      effects h.reactions = effects h'.reactions ∧ h.server = h'.server ∧
      h.client.withInput [] = h'.client.withInput [] := by
  have idle : serveStep io ⟨s, { fd := fd }, 0⟩ [] = none := rfl
  obtain ⟨h, _, ran, drains⟩ := readCalls_drains io s { fd := fd } 0 calls calm (by simp) idle
  obtain ⟨h', _, ran', drains'⟩ := readCalls_drains io s { fd := fd } 0 calls' calm' (by simp) idle
  rw [← same] at drains'
  obtain ⟨states, _, alike⟩ := drains.functional drains'
  exact ⟨h, h', ran, ran', alike, congrArg Serving.server states, congrArg Serving.client states⟩

theorem reactions_of_chunks_lab :
    let frames := labFrame kPing (str "lab") ++ labFrame kText (str "\x7b\"type\":\"record\",\"enabled\":true\x7d")
    ∃ h h', readCalls {} labServer { fd := 3 } 0 [[.data (labUpgrade ++ frames)]] = .ok h ∧
      readCalls {} labServer { fd := 3 } 0
        [[.data (labUpgrade.take 7)], [.interrupted, .data (labUpgrade.drop 7), .data (frames.take 1)],
          [.again], [.data (frames.drop 1)]] = .ok h' ∧
      effects h.reactions = effects h'.reactions ∧ h.server = h'.server ∧
      h.client.withInput [] = h'.client.withInput [] :=
  reactions_of_chunks {} labServer 3 _ _ (by decide) (by decide) (by decide +kernel)

end Chunks

end IpcRelay.Ctl
