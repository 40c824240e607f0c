import IpcRelay.Ctl.Serving

/-!
# What a client's bytes mean

The session of a connection reads requests, frames and messages off its stream,
without the server's state or its answers. `itemsOf` lists what it finds. The
server follows it step by step (`drains_explained`), and what the server does
for a client is explained by what the session found.
-/

namespace IpcRelay.Ctl

open WsOpcode WsClose Machine Incremental

section Spec

/-- The page that opens the connection is of this server. -/
def SameOrigin (req : HttpRequest) : Prop :=
  req.hasHeader (str "origin") → ∃ p, find (req.header (str "origin")) (str "://") 0 = some p ∧
    toLower ((req.header (str "origin")).drop (p + 3)) = toLower (req.header (str "host"))

/-- A request that may open a WebSocket. -/
structure Authorised (req : HttpRequest) : Prop where
  get : req.method = str "GET"
  path : req.path = str "/ws"
  upgrade : headerHasToken (req.header (str "upgrade")) (str "websocket")
  connection : headerHasToken (req.header (str "connection")) (str "upgrade")
  version : req.header (str "sec-websocket-version") = str "13"
  key : (req.header (str "sec-websocket-key")).length = 24
  origin : SameOrigin req

theorem originAllowed_iff (req : HttpRequest) : originAllowed req = true ↔ SameOrigin req := by
  unfold originAllowed SameOrigin
  cases present : req.hasHeader (str "origin")
  · simp
  · simp only [Bool.not_true, Bool.false_eq_true, if_false, forall_const]
    cases find (req.header (str "origin")) (str "://") 0 with
    | none => simp
    | some p => simp

/-- The upgrade is made exactly for these. -/
theorem checkUpgrade_iff {req : HttpRequest} (path : req.path = str "/ws") :
    (∃ key, checkUpgrade req = .ok key) ↔ Authorised req := by
  unfold checkUpgrade
  simp only
  constructor
  · rintro ⟨key, h⟩
    split at h
    · cases h
    next get =>
      split at h
      · cases h
      next tokens =>
        split at h
        · cases h
        next version =>
          split at h
          · cases h
          next length =>
            split at h
            · cases h
            next origin =>
              simp only [Bool.or_eq_true, Bool.not_eq_true', not_or, Bool.not_eq_false] at tokens
              exact {
                get := not_not.1 get
                path := path
                upgrade := tokens.1
                connection := tokens.2
                version := not_not.1 version
                key := not_not.1 length
                origin := (originAllowed_iff req).1 (by simpa using origin) }
  · intro auth
    refine ⟨req.header (str "sec-websocket-key"), ?_⟩
    rw [if_neg (not_not.2 auth.get), if_neg (by simp [auth.upgrade, auth.connection]), if_neg (not_not.2 auth.version),
      if_neg (not_not.2 auth.key), if_neg (by simp [(originAllowed_iff req).2 auth.origin])]

theorem checkUpgrade_key {req : HttpRequest} {key : Bytes} (h : checkUpgrade req = .ok key) :
    req.header (str "sec-websocket-key") = key := by
  unfold checkUpgrade at h
  simp only at h
  split_ifs at h
  exact Except.ok.inj h

/-- Where a connection stands. -/
inductive Phase where
  /-- The request is awaited. -/
  | http
  /-- Frames are read, with the pieces of a message that has begun. -/
  | frames (message : Bytes) (inMessage : Bool)
  /-- Nothing more is read. -/
  | closed

/-- What is found in a stream. -/
inductive Item where
  | request (req : HttpRequest)
  | frame (f : WsFrame)
  /-- A text message, after the frame that completes it. -/
  | text (message : Bytes)

instance (req : HttpRequest) : Decidable (Authorised req) :=
  decidable_of_iff (req.path = str "/ws" ∧ (checkUpgrade req).isOk) <| by
    constructor
    · rintro ⟨path, ok⟩
      refine (checkUpgrade_iff path).1 ?_
      cases check : checkUpgrade req with
      | error r =>
        rw [check] at ok
        cases ok
      | ok key => exact ⟨key, rfl⟩
    · intro auth
      obtain ⟨key, check⟩ := (checkUpgrade_iff auth.path).2 auth
      rw [check]
      exact ⟨auth.path, rfl⟩

/-- The phase after a frame, and the message that it completes. -/
def takeFrame (message : Bytes) (inMessage : Bool) (f : WsFrame) : Phase × List Bytes :=
  if f.opcode = kClose ∨ f.opcode = kBinary then (.closed, [])
  else if f.opcode = kText ∨ f.opcode = kContinuation then
    let message := (if f.opcode = kText then [] else message) ++ f.payload
    -- a text frame begins a message and a continuation goes on with one
    if decide (f.opcode = kText) = inMessage ∨ kMaxWsMessage < message.length then (.closed, [])
    else if f.fin then (.frames [] false, [message])
    else (.frames message true, [])
  else (.frames message inMessage, [])

theorem takeFrame_probe {message : Bytes} {inMessage : Bool} {f : WsFrame} (probe : f.opcode = kPing ∨ f.opcode = kPong) :
    takeFrame message inMessage f = (.frames message inMessage, []) := by
  unfold takeFrame
  rw [if_neg (by rcases probe with o | o <;> rw [o] <;> decide), if_neg (by rcases probe with o | o <;> rw [o] <;> decide)]

theorem takeFrame_closes {message : Bytes} {inMessage : Bool} {f : WsFrame} (closes : f.opcode = kClose ∨ f.opcode = kBinary) :
    takeFrame message inMessage f = (.closed, []) := if_pos closes

theorem takeFrame_data {message : Bytes} {inMessage : Bool} {f : WsFrame} (data : f.opcode = kText ∨ f.opcode = kContinuation) :
    takeFrame message inMessage f =
      if decide (f.opcode = kText) = inMessage ∨ kMaxWsMessage < ((if f.opcode = kText then [] else message) ++ f.payload).length
      then (.closed, [])
      else if f.fin then (.frames [] false, [(if f.opcode = kText then [] else message) ++ f.payload])
      else (.frames ((if f.opcode = kText then [] else message) ++ f.payload) true, []) := by
  unfold takeFrame
  rw [if_neg (by rcases data with d | d <;> rw [d] <;> decide), if_pos data]

/-- What is read in a phase: a request, or with `true` a frame. -/
def Phase.reads : Phase → Option Bool
  | .http => some false
  | .frames .. => some true
  | .closed => none

/-- The phase after something was found, and what is noted of it. What cannot be parsed ends the reading. -/
def Phase.take : Phase → Found → Phase × List Item
  | .http, .request req => (if Authorised req then .frames [] false else .closed, [.request req])
  | .frames message inMessage, .frame f =>
    ((takeFrame message inMessage f).1, .frame f :: (takeFrame message inMessage f).2.map .text)
  | _, _ => (.closed, [])

theorem take_request (req : HttpRequest) : Phase.http.take (.request req) =
    (if Authorised req then .frames [] false else .closed, [.request req]) := rfl

/-- The request or the frame at the front of the stream. -/
def sessionStep (phase : Phase) (input : Bytes) : Option (Phase × Bytes × List Item) :=
  match phase.reads with
  | none => none
  | some websocket =>
    match front websocket input with
    | none => none
    | some (x, rest) => some ((phase.take x).1, rest, (phase.take x).2)

/-- What is found in a stream from its beginning. -/
def itemsOf (stream : Bytes) : List Item := (drain sessionStep (stream.length + 2) .http stream).2.2

/-- The messages that are completed. -/
def textsOf (items : List Item) : List Bytes := items.filterMap fun
  | .text message => some message
  | _ => none

/-- The command that a message asks for: it is an object whose first `type` is `record` and whose first
`enabled` is a boolean. -/
def recordCommand (text : Bytes) : Option Bytes :=
  match Json.parse text with
  | .ok (.ok msg) =>
    match msg.isObject, msg.get (str "type"), msg.get (str "enabled") with
    | true, some (.string type), some (.bool enabled) =>
      if type = str "record" then some (if enabled then str "record on" else str "record off") else none
    | _, _, _ => none
  | _ => none

/-- The commands that a list of messages asks for. -/
def requestsOf (texts : List Bytes) : List Bytes := texts.filterMap recordCommand

end Spec

section Steps

variable {phase phase' : Phase} {input rest : Bytes} {items : List Item}

theorem sessionStep_cases : sessionStep phase input = some (phase', rest, items) ↔ ∃ websocket x,
    phase.reads = some websocket ∧ front websocket input = some (x, rest) ∧ phase.take x = (phase', items) := by
  unfold sessionStep
  constructor
  · intro h
    cases reads : phase.reads with
    | none =>
      rw [reads] at h
      cases h
    | some websocket =>
      simp only [reads] at h
      split at h
      · cases h
      next x rest' found =>
        cases h
        exact ⟨websocket, x, rfl, found, rfl⟩
  · rintro ⟨websocket, x, reads, found, take⟩
    simp only [reads, found, take]

theorem sessionStep_waits (waits : ∀ websocket, phase.reads = some websocket → front websocket input = none) :
    sessionStep phase input = .none := by
  unfold sessionStep
  cases reads : phase.reads with
  | none => rfl
  | some websocket => simp only [waits websocket reads]

theorem sessionStep_stable : Stable sessionStep := by
  intro phase input phase' rest items more h
  obtain ⟨websocket, x, reads, found, take⟩ := sessionStep_cases.1 h
  exact sessionStep_cases.2 ⟨websocket, x, reads, front_stable found more, take⟩

theorem sessionStep_progresses : Progresses sessionStep := by
  intro phase input phase' rest items h
  obtain ⟨websocket, x, reads, found, take⟩ := sessionStep_cases.1 h
  have bad : phase' = .closed → ∀ b, sessionStep phase' b = none := by
    rintro rfl b
    rfl
  cases front_cases found with
  | request _ shorter => exact .inl shorter
  | frame _ shorter _ => exact .inl shorter
  | badRequest _ _ =>
    cases phase <;> cases take <;> exact .inr (bad rfl)
  | badFrame _ _ =>
    cases phase <;> cases take <;> exact .inr (bad rfl)

/-- The items of a stream are those that the session takes from it. -/
theorem itemsOf_eq {stream : Bytes} (h : Drains sessionStep .http stream phase rest items) : itemsOf stream = items :=
  ((drain_drains sessionStep_progresses (stream.length + 2) .http stream le_rfl).functional h).2.2

end Steps

section Explanation

/-- What a client's state says of its session. -/
inductive Client.At (c : Client) : Phase → Prop where
  | http : ¬ (c.dead ∨ c.closeAfterWrite) → ¬ c.websocket → c.message = [] → c.inMessage = false → c.At .http
  | frames {message : Bytes} {inMessage : Bool} : ¬ (c.dead ∨ c.closeAfterWrite) → c.websocket → message = c.message →
      inMessage = c.inMessage → c.At (.frames message inMessage)
  | closed : c.dead ∨ c.closeAfterWrite → c.At .closed

/-- Neither the output nor the input is part of it. -/
theorem Client.At.congr {c c' : Client} {phase : Phase} (h : c.At phase) (dead : c'.dead = c.dead)
    (closing : c'.closeAfterWrite = c.closeAfterWrite) (ws : c'.websocket = c.websocket)
    (message : c'.message = c.message) (inMessage : c'.inMessage = c.inMessage) : c'.At phase := by
  cases h with
  | http alive http m i =>
    rw [← dead, ← closing] at alive
    exact .http alive (ws ▸ http) (message.trans m) (inMessage.trans i)
  | frames alive ws' m i =>
    rw [← dead, ← closing] at alive
    exact .frames alive (ws ▸ ws') (m.trans message.symm) (i.trans inMessage.symm)
  | closed closed =>
    rw [← dead, ← closing] at closed
    exact .closed closed

/-- A text is the server's account of itself, or of the statistics. -/
def Informs (S : ControlServer → Prop) (p : Bytes) : Prop :=
  ∃ s, S s ∧ (p = s.helloJson ∨ ∃ clock, p = (s.statsEnvelope clock).2)

/-- A text answers a message: with the error of the message, or that of its command. -/
def Replies (rs : List Reaction) (text p : Bytes) : Prop :=
  ∃ r ok error, Json.parse text = .ok r ∧ p = commandResult (readRequest r).id (readRequest r).command ok error ∧
    (error = (readRequest r).error ∨ ∃ command frames, .command command frames (some error) ∈ rs)

/-- Why a frame is sent. -/
inductive FrameExplained (S : ControlServer → Prop) (rs : List Reaction) (items : List Item) : UInt8 → Bytes → Prop where
  | informs {p : Bytes} : Informs S p → FrameExplained S rs items kText p
  | reply {p text : Bytes} : text ∈ textsOf items → Replies rs text p → FrameExplained S rs items kText p
  | pong {p : Bytes} : p.length ≤ 125 → FrameExplained S rs items kPong p
  | fail {code : UInt16} {reason : Bytes} : FrameExplained S rs items kClose (wsClosePayload code reason)
  | echo {f : WsFrame} : .frame f ∈ items → f.opcode = kClose → FrameExplained S rs items kClose (f.payload.take 2)

/-- The commands among the reactions. -/
def commandsOf (rs : List Reaction) : List Bytes := rs.filterMap fun
  | .command text .. => some text
  | _ => none

/-- What is done for a client is explained by what was found in its stream. -/
structure Explained (S : ControlServer → Prop) (rs : List Reaction) (items : List Item) : Prop where
  commands : commandsOf rs = requestsOf (textsOf items)
  sent : ∀ text frames error, .command text frames error ∈ rs → ∃ s, S s ∧ (frames, error) = s.sendCommand text error
  frames : ∀ opcode p, .frame opcode p ∈ rs → FrameExplained S rs items opcode p
  api : ∀ body head, .api body head ∈ rs → ∃ s clock, S s ∧ body = (s.statsEnvelope clock).2

variable {S : ControlServer → Prop} {rs rs' : List Reaction} {items items' : List Item}

theorem FrameExplained.mono {opcode : UInt8} {p : Bytes} (h : FrameExplained S rs items opcode p)
    (more : ∀ r ∈ rs, r ∈ rs') (sub : ∀ i ∈ items, i ∈ items') : FrameExplained S rs' items' opcode p := by
  cases h with
  | informs h => exact .informs h
  | reply mem h =>
    obtain ⟨r, ok, error, parsed, answer, reason⟩ := h
    refine .reply ?_ ⟨r, ok, error, parsed, answer, reason.imp_right ?_⟩
    · obtain ⟨i, mem, answer⟩ := List.mem_filterMap.1 mem
      exact List.mem_filterMap.2 ⟨i, sub i mem, answer⟩
    · rintro ⟨command, frames, mem⟩
      exact ⟨command, frames, more _ mem⟩
  | pong h => exact .pong h
  | fail => exact .fail
  | echo mem h => exact .echo (sub _ mem) h

/-- Nothing is done where nothing was asked for. -/
theorem Explained.quiet (silent : requestsOf (textsOf items) = []) : Explained S [] items where
  commands := silent.symm
  sent := by simp
  frames := by simp
  api := by simp

theorem Explained.append (h : Explained S rs items) (h' : Explained S rs' items') :
    Explained S (rs ++ rs') (items ++ items') where
  commands := by
    have first := h.commands
    have second := h'.commands
    unfold commandsOf requestsOf textsOf at *
    rw [List.filterMap_append, List.filterMap_append, List.filterMap_append, first, second]
  sent text frames error mem := by
    rcases List.mem_append.1 mem with mem | mem
    · exact h.sent text frames error mem
    · exact h'.sent text frames error mem
  frames opcode p mem := by
    rcases List.mem_append.1 mem with mem | mem
    · exact (h.frames opcode p mem).mono (fun _ => List.mem_append_left _) fun _ => List.mem_append_left _
    · exact (h'.frames opcode p mem).mono (fun _ => List.mem_append_right _) fun _ => List.mem_append_right _
  api body head mem := by
    rcases List.mem_append.1 mem with mem | mem
    · exact h.api body head mem
    · exact h'.api body head mem

/-- A reading needs no explanation. -/
theorem Explained.read (h : Explained S rs items) (data : Bytes) : Explained S (.received data :: rs) items where
  commands := h.commands
  sent text frames error mem := h.sent text frames error (by simpa using mem)
  frames opcode p mem := (h.frames opcode p (by simpa using mem)).mono (fun _ => List.mem_cons_of_mem _) fun _ => id
  api body head mem := h.api body head (by simpa using mem)

/-- One frame is sent, for nothing that was asked for. -/
theorem Explained.frame {opcode : UInt8} {p : Bytes} (h : FrameExplained S [.frame opcode p] items opcode p)
    (silent : requestsOf (textsOf items) = []) : Explained S [.frame opcode p] items where
  commands := silent.symm
  sent := by simp
  frames opcode' p' mem := by
    cases List.mem_singleton.1 mem
    exact h
  api := by simp

/-- The decoder finds the command that a message asks for. -/
theorem readRequest_command {text : Bytes} {r : Except Bytes Json.Value} (h : Json.parse text = .ok r) :
    (readRequest r).command = (recordCommand text).getD [] := by
  unfold recordCommand readRequest
  rw [h]
  cases r with
  | error e => rfl
  | ok msg =>
    simp only
    cases msg.isObject with
    | false => rfl
    | true =>
      cases msg.get (str "type") with
      | none => rfl
      | some type =>
        cases type with
        | string type =>
          simp only [Bool.not_true, Bool.false_eq_true, if_false]
          by_cases record : type = str "record"
          · rw [if_pos record]
            cases msg.get (str "enabled") with
            | none => rfl
            | some enabled => cases enabled <;> simp [record]
          · rw [if_neg record]
            cases msg.get (str "enabled") with
            | none => rfl
            | some enabled => cases enabled <;> simp [record]
        | _ => rfl

theorem recordCommand_texts {text command : Bytes} (h : recordCommand text = some command) :
    command = str "record on" ∨ command = str "record off" := by
  unfold recordCommand at h
  split at h
  · split at h
    · split at h
      · cases h
        split
        · exact .inl rfl
        · exact .inr rfl
      · cases h
    · cases h
  · cases h

/-- A property that only concerns the configuration and the statistics that are kept. -/
def Steady (S : ControlServer → Prop) : Prop :=
  ∀ s s', s'.build = s.build → s'.cfg = s.cfg → s'.latestStats = s.latestStats → s'.latestStatsNs = s.latestStatsNs →
    S s → S s'

variable {s : ControlServer} {c : Client} {io : ClientIo} {k : Nat} {f : WsFrame} {h : Handled} {phase : Phase}

/-- A message is answered, after the command that it asks for. -/
theorem handleWsMessage_explained (steady : Steady S) (hs : S s) {text : Bytes} (f : WsFrame)
    (ran : handleWsMessage s c io k text = .ok h) : S h.server ∧ (∃ output, h.client = { c with output := output }) ∧
      Explained S h.reactions [.frame f, .text text] := by
  obtain ⟨r, parsed, cases⟩ := handleWsMessage_cases s c io k text
  have command := readRequest_command parsed
  have requests : requestsOf (textsOf [.frame f, .text text]) = (recordCommand text).toList := by
    change List.filterMap recordCommand [text] = _
    cases found : recordCommand text <;> simp [found]
  have mem : text ∈ textsOf [.frame f, .text text] := by simp [textsOf]
  rcases cases with ⟨asks, s', frames, error, ran', after, send⟩ | ⟨quiet, ran'⟩
  · cases ran'.symm.trans ran
    refine ⟨?_, ⟨_, rfl⟩, ?_⟩
    · rcases after with rfl | rfl
      · exact hs
      · exact steady s _ rfl rfl rfl rfl hs
    · obtain ⟨asked, found⟩ : ∃ asked, recordCommand text = some asked := by
        cases found : recordCommand text with
        | none =>
          rw [found] at command
          exact absurd command asks
        | some asked => exact ⟨asked, rfl⟩
      have topic : (frames, error) = s.sendCommand (readRequest r).command error := by
        cases send
        rfl
      refine { commands := ?_, sent := ?_, frames := ?_, api := by simp [Handled.after, wsSend] }
      · rw [requests, found, show commandsOf _ = [(readRequest r).command] from rfl, command, found]
        rfl
      · intro text' frames' error' sent
        simp only [Handled.after, wsSend, List.cons_append, List.nil_append, List.mem_cons, reduceCtorEq,
          Reaction.command.injEq, List.not_mem_nil, or_false] at sent
        obtain ⟨rfl, rfl, rfl⟩ := sent
        exact ⟨s, hs, topic⟩
      · intro opcode p sent
        simp only [Handled.after, wsSend, List.cons_append, List.nil_append, List.mem_cons, reduceCtorEq,
          Reaction.frame.injEq, List.not_mem_nil, or_false, false_or] at sent
        obtain ⟨rfl, rfl⟩ := sent
        refine .reply mem ⟨r, _, _, parsed, rfl, ?_⟩
        cases error with
        | none => exact .inl rfl
        | some e => exact .inr ⟨_, _, List.mem_cons_self ..⟩
  · cases ran'.symm.trans ran
    refine ⟨hs, ⟨_, rfl⟩, ?_⟩
    refine Explained.frame (.reply mem ⟨r, _, _, parsed, rfl, .inl rfl⟩) ?_
    rw [requests]
    cases found : recordCommand text with
    | none => rfl
    | some asked =>
      rw [quiet, found] at command
      rcases recordCommand_texts found with rfl | rfl <;> cases command

/-- The session takes a frame as the server does. -/
theorem FrameCase.explained (steady : Steady S) (hs : S s) (alive : ¬ (c.dead ∨ c.closeAfterWrite)) (ws : c.websocket)
    (legal : f.Legal) (fc : FrameCase s c io k f h) : S h.server ∧
      h.client.At (takeFrame c.message c.inMessage f).1 ∧
      Explained S h.reactions (.frame f :: (takeFrame c.message c.inMessage f).2.map .text) := by
  have message : (addPiece c f).message = (if f.opcode = kText then [] else c.message) ++ f.payload := rfl
  cases fc with
  | ping ping =>
    rw [takeFrame_probe (.inl ping)]
    refine ⟨hs, .frames alive ws rfl rfl, .frame (.pong (legal.control ?_)) rfl⟩
    rw [ping]
    decide
  | pong pong =>
    rw [takeFrame_probe (.inr pong)]
    exact ⟨hs, .frames alive ws rfl rfl, Explained.quiet rfl⟩
  | close close =>
    rw [takeFrame_closes (.inl close)]
    exact ⟨hs, .closed (.inr rfl), .frame (.echo (List.mem_cons_self ..) close) rfl⟩
  | binary binary =>
    rw [takeFrame_closes (.inr binary)]
    exact ⟨hs, .closed (.inr rfl), .frame .fail rfl⟩
  | unexpected data bad =>
    rw [takeFrame_data data, if_pos (.inl bad)]
    exact ⟨hs, .closed (.inr rfl), .frame .fail rfl⟩
  | tooLarge data _ large =>
    rw [takeFrame_data data, if_pos (.inr large)]
    exact ⟨hs, .closed (.inr rfl), .frame .fail rfl⟩
  | piece data good small more =>
    rw [takeFrame_data data, if_neg (by rw [message] at small; grind), more, ← message]
    exact ⟨hs, .frames alive ws rfl (by simp [addPiece, more]), Explained.quiet rfl⟩
  | message data good small fin ran =>
    rw [takeFrame_data data, if_neg (by rw [message] at small; grind), if_pos fin, ← message]
    obtain ⟨hs', ⟨output, client⟩, explained⟩ := handleWsMessage_explained steady hs f ran
    refine ⟨hs', ?_, explained⟩
    rw [client]
    exact .frames alive ws rfl (by simp [addPiece, fin])

variable {v v' : Serving} {x : Found} {d : Handled} {input rest : Bytes}

/-- One response is sent. -/
theorem respond_explained {s : ControlServer} {c : Client} {r : Reaction}
    (frames : ∀ opcode p, r ≠ .frame opcode p) (commands : ∀ text frames error, r ≠ .command text frames error)
    (api : ∀ body head, r = .api body head → ∃ s clock, S s ∧ body = (s.statsEnvelope clock).2)
    (unasked : requestsOf (textsOf items) = []) : Explained S (respond s c r).reactions items where
  commands := by
    have silent : commandsOf [r] = [] := by
      cases r with
      | command t fs e => exact absurd rfl (commands t fs e)
      | _ => rfl
    exact silent.trans unasked.symm
  sent text frames error mem := absurd (List.mem_singleton.1 mem).symm (commands text frames error)
  frames opcode p mem := absurd (List.mem_singleton.1 mem).symm (frames opcode p)
  api body head mem := api body head (List.mem_singleton.1 mem).symm

/-- A client that is accepted is sent accounts of the server and of the statistics. -/
theorem greet_reactions (s : ControlServer) (c : Client) (io : ClientIo) (key : Bytes) : (greet s c io key).reactions =
    [.upgraded key, .frame kText s.helloJson, .frame kText (s.statsEnvelope io.clock).2] := rfl

theorem greet_explained (hs : S s) {key : Bytes} (silent : requestsOf (textsOf items) = []) :
    Explained S (greet s c io key).reactions items := by
  rw [greet_reactions]
  constructor
  · exact silent.symm
  · intro text frames error sent
    simp only [List.mem_cons, reduceCtorEq, List.not_mem_nil, or_false] at sent
  · intro opcode p sent
    simp only [List.mem_cons, reduceCtorEq, Reaction.frame.injEq, List.not_mem_nil, or_false, false_or] at sent
    rcases sent with ⟨text, eq⟩ | ⟨text, eq⟩
    · rw [text]
      exact .informs ⟨s, hs, .inl eq⟩
    · rw [text]
      exact .informs ⟨s, hs, .inr ⟨io.clock, eq⟩⟩
  · intro body head sent
    simp only [List.mem_cons, reduceCtorEq, List.not_mem_nil, or_false] at sent

/-- What is done for a request is explained by the statistics. -/
theorem ServeCase.explained_http (hs : S v.server) (http : ¬ v.client.websocket) (sc : ServeCase io v x d)
    (silent : requestsOf (textsOf items) = []) : Explained S d.reactions items := by
  cases sc with
  | badFrame ws => exact absurd ws http
  | frame ws => exact absurd ws http
  | badRequest _ => exact respond_explained (by simp) (by simp) (by simp) silent
  | upgrade _ _ _ => exact greet_explained hs silent
  | api _ _ =>
    refine respond_explained (by simp) (by simp) ?_ silent
    intro body head same
    cases same
    exact ⟨_, _, hs, rfl⟩
  | response _ _ => exact respond_explained (by simp) (by simp) (by simp) silent

/-- The session takes what is found as the server does. -/
theorem ServeCase.explained (steady : Steady S) (hs : S v.server)
    (alive : ¬ (v.client.dead ∨ v.client.closeAfterWrite)) (stands : v.client.At phase) (sc : ServeCase io v x d) :
    S d.server ∧ d.client.At (phase.take x).1 ∧ Explained S d.reactions (phase.take x).2 := by
  cases stands with
  | closed closed => exact absurd closed alive
  | frames _ ws message inMessage =>
    cases sc with
    | badFrame _ => exact ⟨hs, .closed (.inr rfl), .frame .fail rfl⟩
    | frame _ legal fc =>
      rw [message, inMessage]
      exact fc.explained steady hs alive ws legal
    | badRequest http => exact absurd ws http
    | upgrade http => exact absurd ws http
    | api http => exact absurd ws http
    | response http => exact absurd ws http
  | http _ http message inMessage =>
    have explained (silent : requestsOf (textsOf (Phase.http.take x).2) = []) := sc.explained_http hs http silent
    cases sc with
    | badFrame ws => exact absurd ws http
    | frame ws => exact absurd ws http
    | badRequest _ => exact ⟨hs, .closed (.inr rfl), explained rfl⟩
    | @upgrade req key _ path check =>
      have auth := (checkUpgrade_iff path).1 ⟨key, check⟩
      rw [take_request, if_pos auth]
      exact ⟨steady v.server _ rfl rfl rfl rfl hs, .frames alive rfl message.symm inMessage.symm, explained rfl⟩
    | @api req head _ path =>
      rw [take_request, if_neg fun auth : Authorised req => path auth.path]
      exact ⟨steady v.server _ rfl rfl rfl rfl hs, .closed (.inr rfl), explained rfl⟩
    | @response req _ _ _ _ _ _ refused =>
      have unauthorised : ¬ Authorised req := by
        intro auth
        obtain ⟨_, check⟩ := (checkUpgrade_iff auth.path).2 auth
        obtain ⟨_, check'⟩ := refused auth.path
        rw [check] at check'
        cases check'
      rw [take_request, if_neg unauthorised]
      exact ⟨hs, .closed (.inr rfl), explained rfl⟩

/-- The phase reads what the server reads. -/
theorem Client.At.reads (stands : c.At phase) (alive : ¬ (c.dead ∨ c.closeAfterWrite)) :
    phase.reads = some c.websocket := by
  cases stands with
  | http _ http => rw [Bool.eq_false_iff.2 http]; rfl
  | frames _ ws => rw [ws]; rfl
  | closed closed => exact absurd closed alive

/-- What the server does with a stream is explained by what the session finds in it. -/
theorem drains_explained (steady : Steady S) (hs : S v.server) (stands : v.client.At phase)
    (h : Drains (serveStep io) v input v' rest rs) :
    ∃ phase' items, Drains sessionStep phase input phase' rest items ∧ (S v'.server ∧ v'.client.At phase') ∧
      Explained S rs items := by
  apply h.simulates (R := fun v phase => S v.server ∧ v.client.At phase) _ _ (Explained.quiet rfl)
    (fun _ _ _ _ => Explained.append) ⟨hs, stands⟩
  · rintro v phase input ⟨_, stands⟩ waits
    apply sessionStep_waits
    intro websocket reads
    have alive : ¬ (v.client.dead ∨ v.client.closeAfterWrite) := by
      cases stands with
      | closed _ => cases reads
      | http alive _ => exact alive
      | frames alive _ => exact alive
    cases (stands.reads alive).symm.trans reads
    exact serveStep_none alive waits
  · rintro v phase input v' rest rs ⟨hs, stands⟩ one
    obtain ⟨alive, x, d, found, rfl, rfl, sc⟩ := serveStep_cases one
    obtain ⟨hs', stands', explained⟩ := sc.explained steady hs alive stands
    exact ⟨_, _, sessionStep_cases.2 ⟨_, x, stands.reads alive, found, rfl⟩, ⟨hs', stands'⟩, explained⟩

end Explanation

end IpcRelay.Ctl
