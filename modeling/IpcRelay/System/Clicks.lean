import IpcRelay.Ctl.Commands
import IpcRelay.Ctl.Messages
import IpcRelay.System.Control

/-!
# Who made the receiver record

The pages send their requests through connections that may break at any byte, the
control server publishes commands, and the link to the receiver may lose some of
them. `commands_follow_clicks`: for a page, the commands are the requests of its
clicks, in order, up to where its connection broke, and the receiver handles none but
published commands.
-/

namespace IpcRelay

open Ctl Ctl.Frontend Machine Incremental

section Found

variable {message : Bytes} {inMessage : Bool} {f : WsFrame}

/-- A frame of a page is taken from its stream. -/
theorem sessionStep_frame (message : Bytes) (inMessage : Bool) (m : MaskedFrame) (known : m.opcode ∈ knownOpcodes)
    (fits : m.payload.length ≤ kMaxWsMessage) (control : m.opcode &&& 0x08 ≠ 0 → m.fin ∧ m.payload.length ≤ 125)
    (rest : Bytes) :
    sessionStep (.frames message inMessage) (clientFrame m.toWsFrame m.mask ++ rest) =
      some ((takeFrame message inMessage m.toWsFrame).1, rest,
        .frame m.toWsFrame :: (takeFrame message inMessage m.toWsFrame).2.map .text) := by
  refine sessionStep_cases.2 ⟨true, .frame m.toWsFrame, rfl, ?_, rfl⟩
  rw [front_frames, parseFrame_client known fits (Nat.lt_of_le_of_lt fits (by decide)) control m.four rest]
  simp only [List.drop_left]

theorem takeFrame_probe (probe : f.isProbe) : takeFrame message inMessage f = (.frames message inMessage, []) := by
  have others : f.opcode ≠ WsOpcode.kClose ∧ f.opcode ≠ WsOpcode.kBinary ∧ f.opcode ≠ WsOpcode.kText ∧
      f.opcode ≠ WsOpcode.kContinuation := by
    rcases (isProbe_iff f).1 probe with eq | eq <;> (rw [eq]; decide)
  unfold takeFrame
  rw [if_neg (by simp [others.1, others.2.1]), if_neg (by simp [others.2.2.1, others.2.2.2])]

theorem takeFrame_piece {begun : Option Bytes} (opcode : f.opcode = nextOpcode begun)
    (fits : (begun.getD [] ++ f.payload).length ≤ kMaxWsMessage) (same : ∀ m ∈ begun, message = m) :
    takeFrame message begun.isSome f = if f.fin then (.frames [] false, [begun.getD [] ++ f.payload])
      else (.frames (begun.getD [] ++ f.payload) true, []) := by
  unfold takeFrame
  rw [opcode]
  cases begun with
  | none =>
    rw [if_neg (by decide), if_pos (.inl rfl), if_pos (show nextOpcode none = WsOpcode.kText from rfl)]
    dsimp only
    rw [if_neg]
    · rfl
    · rintro (bad | long)
      · cases bad
      · exact absurd long (Nat.not_lt.2 fits)
  | some m =>
    obtain rfl := same m rfl
    have other : WsOpcode.kContinuation ≠ WsOpcode.kText := by decide
    rw [show nextOpcode (some message) = WsOpcode.kContinuation from rfl, if_neg (by decide), if_pos (.inr rfl)]
    simp only [if_neg other, decide_eq_false other]
    rw [if_neg]
    · rfl
    · rintro (bad | long)
      · cases bad
      · exact absurd long (Nat.not_lt.2 fits)

theorem textsOf_append (items items' : List Item) : textsOf (items ++ items') = textsOf items ++ textsOf items' :=
  List.filterMap_append

/-- What is found in frames is what is heard in them. -/
theorem frames_found {begun after : Option Bytes} {gs : List WsFrame} {hs : List Heard}
    (assembles : Assembles begun gs hs after) :
    ∀ (fs : List MaskedFrame) (message rest : Bytes), fs.map MaskedFrame.toWsFrame = gs → (∀ m ∈ begun, message = m) →
      ∃ message' items,
        Takes sessionStep (.frames message begun.isSome) (Ctl.wire fs ++ rest) (.frames message' after.isSome) rest items ∧
        textsOf items = messagesOf hs := by
  induction assembles with
  | nil =>
    intro fs message rest frames _
    obtain rfl := List.map_eq_nil_iff.1 frames
    exact ⟨message, [], .done, rfl⟩
  | @ping begun _ _ _ _ opcode fin short _ ih =>
    intro fs message rest frames same
    obtain ⟨m, ms, rfl, rfl, others⟩ := split_map frames
    have step := sessionStep_frame message begun.isSome m (by rw [opcode]; decide) (le_trans short (by decide))
      (fun _ => ⟨fin, short⟩) (Ctl.wire ms ++ rest)
    rw [takeFrame_probe ((isProbe_iff _).2 (.inl opcode))] at step
    obtain ⟨message', items, takes, found⟩ := ih ms message rest others same
    rw [wire_cons]
    exact ⟨message', _, .item step takes, found⟩
  | @pong begun _ _ _ _ opcode fin short _ ih =>
    intro fs message rest frames same
    obtain ⟨m, ms, rfl, rfl, others⟩ := split_map frames
    have step := sessionStep_frame message begun.isSome m (by rw [opcode]; decide) (le_trans short (by decide))
      (fun _ => ⟨fin, short⟩) (Ctl.wire ms ++ rest)
    rw [takeFrame_probe ((isProbe_iff _).2 (.inr opcode))] at step
    obtain ⟨message', items, takes, found⟩ := ih ms message rest others same
    rw [wire_cons]
    exact ⟨message', _, .item step takes, found⟩
  | @piece begun _ _ _ _ opcode more fits _ ih =>
    intro fs message rest frames same
    obtain ⟨m, ms, rfl, rfl, others⟩ := split_map frames
    obtain ⟨known, low, _⟩ := data_known (opcode ▸ nextOpcode_data _)
    have step := sessionStep_frame message begun.isSome m known (payload_fits fits) (fun high => absurd low high)
      (Ctl.wire ms ++ rest)
    rw [takeFrame_piece opcode fits same, if_neg (by simp [more])] at step
    obtain ⟨message', items, takes, found⟩ := ih ms _ rest others (by rintro _ ⟨⟩; rfl)
    rw [wire_cons]
    exact ⟨message', _, .item step takes, found⟩
  | @last begun _ _ _ _ opcode fin fits _ ih =>
    intro fs message rest frames same
    obtain ⟨m, ms, rfl, rfl, others⟩ := split_map frames
    obtain ⟨known, low, _⟩ := data_known (opcode ▸ nextOpcode_data _)
    have step := sessionStep_frame message begun.isSome m known (payload_fits fits) (fun high => absurd low high)
      (Ctl.wire ms ++ rest)
    rw [takeFrame_piece opcode fits same, if_pos fin] at step
    obtain ⟨message', items, takes, found⟩ := ih ms [] rest others (by rintro _ ⟨⟩)
    rw [wire_cons]
    refine ⟨message', _, .item step takes, ?_⟩
    rw [textsOf_append, found]
    rfl

end Found

section Link

/-- Texts, each as the frames of one message, with any pings and pongs between them. -/
inductive Carries : List Bytes → List MaskedFrame → Prop where
  | nil : Carries [] []
  | cons {text : Bytes} {texts : List Bytes} {fs gs : List MaskedFrame} : Sends text (fs.map MaskedFrame.toWsFrame) →
      text.length ≤ kMaxWsMessage → Carries texts gs → Carries (text :: texts) (fs ++ gs)

/-- What a connection has received of a page: the request that opens the WebSocket and the frames of the texts that the
page has sent on it, up to where the connection broke. -/
inductive PageLink (asked : List Bytes) : Bytes → Prop where
  | mk {opening stream : Bytes} {req : HttpRequest} {fs : List MaskedFrame}
      (request : parseHttpRequest opening kMaxHeaderBytes = .ok (.request req opening.length)) (authorised : Authorised req)
      (frames : Carries asked fs) (part : stream <+: opening ++ Ctl.wire fs) : PageLink asked stream

variable {asked : List Bytes} {fs : List MaskedFrame} {stream : Bytes}

theorem wire_append (fs gs : List MaskedFrame) : Ctl.wire (fs ++ gs) = Ctl.wire fs ++ Ctl.wire gs := List.flatMap_append

/-- The texts that are found in the frames are those that were sent. -/
theorem Carries.found (carries : Carries asked fs) : ∀ message, ∃ phase rest items,
    Drains sessionStep (.frames message false) (Ctl.wire fs) phase rest items ∧ textsOf items = asked := by
  induction carries with
  | nil =>
    intro message
    refine ⟨_, _, [], .more (sessionStep_waits fun websocket reads => ?_), rfl⟩
    cases reads
    rfl
  | @cons text texts fs gs sends fits _ ih =>
    intro message
    obtain ⟨message', items, takes, found⟩ := frames_found (sends.assembles fits) fs message (Ctl.wire gs) rfl (by rintro _ ⟨⟩)
    obtain ⟨phase, rest, items', drains, found'⟩ := ih message'
    refine ⟨phase, rest, items ++ items', ?_, ?_⟩
    · rw [wire_append]
      exact takes.drains drains
    · rw [textsOf_append, found, found', sends.messages]
      rfl

/-- No other texts are found on a page's connection, and none before those that were sent before it. -/
theorem PageLink.texts (link : PageLink asked stream) : textsOf (itemsOf stream) <+: asked := by
  obtain ⟨request, authorised, frames, part⟩ := link
  rename_i opening req fs
  obtain ⟨phase, rest, items, drains, found⟩ := frames.found []
  obtain ⟨more, whole⟩ := part
  have opened : sessionStep .http (opening ++ Ctl.wire fs) = some (.frames [] false, Ctl.wire fs, [.request req]) := by
    refine sessionStep_cases.2 ⟨false, .request req, rfl, ?_, ?_⟩
    · have front : front false opening = some (.request req, []) := by
        rw [front_request, request]
        simp only [List.drop_length]
      exact front_stable front (Ctl.wire fs)
    · rw [take_request, if_pos authorised]
  have all := itemsOf_eq (.item opened drains)
  -- what is found in the part is found first in the whole
  have first := drain_drains sessionStep_progresses (stream.length + 2) .http stream le_rfl
  obtain ⟨s, b, os, next⟩ : ∃ s b os, Drains sessionStep (drain sessionStep (stream.length + 2) .http stream).1
      ((drain sessionStep (stream.length + 2) .http stream).2.1 ++ more) s b os :=
    ⟨_, _, _, drain_drains sessionStep_progresses _ _ _ le_rfl⟩
  have both := itemsOf_eq (first.append sessionStep_stable next)
  rw [whole, all] at both
  refine ⟨textsOf os, ?_⟩
  rw [itemsOf_eq first, ← textsOf_append, ← both, textsOf_append, found]
  rfl

theorem recordCommand_request (on : Bool) (n : Nat) :
    recordCommand (Page.recordRequest on n) = some (recordCommandText on) := by
  rw [recordCommand, parse_request]
  rfl

example : recordCommand (Page.recordRequest true 12) = some (str "record on") := by decide +kernel

end Link

section Commands

open ReceiverLoop

/-- The messages that the command socket of the server took. -/
def publishedFrames (log : List (Nat × Reaction)) : List (List Bytes) := log.filterMap fun
  | (_, .command _ frames none) => some frames
  | _ => none

/-- The frames of the answers of the command socket. -/
def framesIn (q : List CommandAnswer) : List (List Bytes) := q.filterMap fun
  | .frames first rest _ => some (first :: rest)
  | .error => none

/-- The messages that the command socket of the receiver held in a round. -/
def LoopRound.commandFrames (r : LoopRound) : List (List Bytes) :=
  match r.poll with
  | .ready _ (some q) => framesIn q
  | _ => []

/-- The command in a message, behind the topic if there is one. -/
def commandIn (frames : List Bytes) : Bytes := frames.tail.headD (frames.headD [])

/-- The texts of the commands among the events. -/
def commandTexts (es : List Receiver.Event) : List Bytes := es.filterMap fun
  | .command raw _ => some raw
  | _ => none

theorem commandTexts_append (es es' : List Receiver.Event) : commandTexts (es ++ es') = commandTexts es ++ commandTexts es' :=
  List.filterMap_append

theorem commandTexts_taken (q : List SocketAnswer) : ∀ budget, commandTexts (takenEvents budget q) = [] := by
  induction q with
  | nil => exact fun budget => by cases budget <;> rfl
  | cons a q ih =>
    intro budget
    cases budget with
    | zero => rfl
    | succ budget =>
      cases a with
      | interrupted => exact ih (budget + 1)
      | error => rfl
      | datagram data drops now io =>
        unfold takenEvents
        split_ifs
        · rfl
        · exact ih budget
        · exact ih budget

theorem commandTexts_commands (q : List CommandAnswer) : ∀ left,
    (commandTexts (commandEvents left q)).Sublist ((framesIn q).map commandIn) := by
  induction q with
  | nil => exact fun left => by cases left <;> exact List.Sublist.refl _
  | cons a q ih =>
    intro left
    cases left with
    | zero => exact List.nil_sublist _
    | succ left =>
      cases a with
      | error => exact List.nil_sublist _
      | frames first rest io => exact (ih left).cons_cons (rest.headD first)

theorem commandTexts_timers (l : ReceiverLoop) (r : LoopRound) : commandTexts (l.timerEvents r) = [] := by
  unfold timerEvents
  split_ifs <;> rfl

theorem commandTexts_round (l : ReceiverLoop) (r : LoopRound) (o : LoopReaction) :
    (commandTexts (roundEvents l r o)).Sublist (r.commandFrames.map commandIn) := by
  unfold roundEvents
  split
  · exact List.nil_sublist _
  · split
    · exact List.nil_sublist _
    · exact List.nil_sublist _
    · rw [commandTexts_timers]
      exact List.nil_sublist _
    next udp commands poll =>
      rw [commandTexts_append, commandTexts_timers, List.append_nil, readyEvents, commandTexts_append]
      have silent : commandTexts (udp.elim [] (takenEvents l.receiver.cfg.maxDatagramsPerPoll.toNat)) = [] := by
        cases udp with
        | none => rfl
        | some q => exact commandTexts_taken q _
      rw [silent, List.nil_append]
      cases commands with
      | none => exact List.nil_sublist _
      | some q =>
        have frames : r.commandFrames = framesIn q := by
          rw [LoopRound.commandFrames, poll]
        rw [frames, Option.elim_some]
        split
        · exact commandTexts_commands q 64
        · exact List.nil_sublist _

/-- The receiver handles no command but those that its socket held, in order. -/
theorem commandTexts_session (cfg : ReceiverConfig) (x : Session) :
    (commandTexts (sessionEvents cfg x)).Sublist ((x.rounds.flatMap LoopRound.commandFrames).map commandIn) := by
  have rounds : ∀ (rs : List LoopRound) (l : ReceiverLoop),
      (commandTexts (collect ReceiverLoop.step roundEvents l rs)).Sublist
        ((rs.flatMap LoopRound.commandFrames).map commandIn) := by
    intro rs
    induction rs with
    | nil => exact fun _ => List.Sublist.refl _
    | cons r rs ih =>
      intro l
      rw [List.flatMap_cons, List.map_append]
      cases one : ReceiverLoop.step l r with
      | error f =>
        have ended : collect ReceiverLoop.step roundEvents l (r :: rs) = [] := by simp [collect, one]
        rw [ended]
        exact List.nil_sublist _
      | ok next =>
        obtain ⟨l', o⟩ := next
        rw [collect_cons one, commandTexts_append]
        exact (commandTexts_round l r o).append (ih l')
  unfold sessionEvents
  split
  · exact List.nil_sublist _
  dsimp only
  split
  · show (commandTexts (collect ReceiverLoop.step roundEvents _ x.rounds ++ [.sweep x.sweepNow, .close x.closeIo])).Sublist _
    have last : commandTexts [.sweep x.sweepNow, .close x.closeIo] = [] := rfl
    rw [commandTexts_append, last, List.append_nil]
    exact rounds x.rounds _
  · exact List.nil_sublist _

/-- What is published for a connection, and why. -/
theorem connection_explained {build : CtlBuild} {cfg : ControlServerConfig} {nextUpdateNs : UInt64} {es : List ServerEvent}
    {w : ControlWorld} {os : List (List (Nat × Reaction))}
    (ran : run ControlWorld.step (.start build cfg nextUpdateNs) es = .ok (w, os)) (fd : Nat) :
    commandsOf (ofConnection fd os.flatten) = requestsOf (textsOf (itemsOf (received (ofConnection fd os.flatten)))) ∧
      ∀ text frames error, .command text frames error ∈ ofConnection fd os.flatten → commandIn frames = text := by
  have history := control_run (T := fun _ => True) (G := fun _ => True) ran (fun _ _ _ _ _ => trivial)
    fun _ _ _ _ _ _ _ _ _ _ => trivial
  obtain ⟨c, _, ended⟩ := history.all fd
  obtain ⟨phase, rest, items, drains, explained⟩ := ended.session (keeps_steady build cfg fun _ => True)
  refine ⟨by rw [itemsOf_eq drains]; exact explained.commands, fun text frames error mem => ?_⟩
  obtain ⟨s, -, sent⟩ := explained.sent text frames error mem
  have frames : frames = (if s.cfg.commandTopic ≠ [] then [s.cfg.commandTopic] else []) ++ [text] := congrArg Prod.fst sent
  rw [frames]
  split <;> rfl

theorem published_commands {log : List (Nat × Reaction)}
    (sent : ∀ fd text frames error, (fd, .command text frames error) ∈ log → commandIn frames = text) :
    ((publishedFrames log).map commandIn).Sublist (commandsOf (log.map Prod.snd)) := by
  induction log with
  | nil => exact List.Sublist.refl _
  | cons x log ih =>
    have later := ih fun fd text frames error mem => sent fd text frames error (List.mem_cons_of_mem _ mem)
    obtain ⟨fd, r⟩ := x
    cases r with
    | command text frames error =>
      cases error with
      | none =>
        have here := sent fd text frames none List.mem_cons_self
        show (commandIn frames :: (publishedFrames log).map commandIn).Sublist (text :: commandsOf (log.map Prod.snd))
        rw [here]
        exact later.cons_cons text
      | some e => exact later.cons text
    | _ => exact later

/-- In every run of the control server, whatever its clients send: on the connection of a page the published commands
are the requests of clicks on it, in order, each once, up to where the connection broke. A receiver whose command
socket holds some of what was published, in order, handles no other commands. -/
theorem commands_follow_clicks (build : CtlBuild) (cfg : ControlServerConfig) (nextUpdateNs : UInt64) (es : List ServerEvent) :
    ∃ w os, run ControlWorld.step (.start build cfg nextUpdateNs) es = .ok (w, os) ∧
      (∀ fd start pes b reqs asked, run Browser.step (.load start) pes = .ok (b, reqs) → asked <:+: reqs.flatMap texts →
        PageLink asked (received (ofConnection fd os.flatten)) →
          commandsOf (ofConnection fd os.flatten) <+: requestsOf asked ∧ (requestsOf asked).length = asked.length ∧
          ∀ command ∈ commandsOf (ofConnection fd os.flatten),
            ∃ on i t, command = recordCommandText on ∧ AskedAt start pes i on t) ∧
      ∀ rcfg x, (x.rounds.flatMap LoopRound.commandFrames).Sublist (publishedFrames os.flatten) →
        (commandTexts (sessionEvents rcfg x)).Sublist (commandsOf (os.flatten.map Prod.snd)) := by
  obtain ⟨w, os, ran⟩ := control_total build cfg nextUpdateNs es
  refine ⟨w, os, ran, fun fd start pes b reqs asked page infix_ link => ?_, fun rcfg x delivered => ?_⟩
  · have commands := (connection_explained ran fd).1
    have clicked : ∀ text ∈ asked, ∃ on n i t, text = Page.recordRequest on n ∧ AskedAt start pes i on t := by
      intro text mem
      obtain ⟨rs, known, here⟩ := List.mem_flatMap.1 (infix_.subset mem)
      obtain ⟨i, at_i⟩ := List.getElem?_of_mem known
      obtain ⟨on, t, n, click, rfl⟩ := askedAt_of_sent page at_i (List.ne_nil_of_mem here)
      exact ⟨on, n, i, t, List.mem_singleton.1 here, click⟩
    have first : commandsOf (ofConnection fd os.flatten) <+: requestsOf asked := by
      rw [commands]
      exact link.texts.filterMap _
    refine ⟨first, ?_, fun command mem => ?_⟩
    · unfold requestsOf
      rw [List.filterMap_length_eq_length]
      intro text mem
      obtain ⟨on, n, -, -, rfl, -⟩ := clicked text mem
      rw [recordCommand_request]
      rfl
    · obtain ⟨text, mem, eq⟩ := List.mem_filterMap.1 (first.subset mem)
      obtain ⟨on, n, i, t, rfl, click⟩ := clicked text mem
      rw [recordCommand_request] at eq
      exact ⟨on, i, t, (Option.some.inj eq).symm, click⟩
  · refine (commandTexts_session rcfg x).trans
      ((delivered.map commandIn).trans (published_commands fun fd text frames error mem => ?_))
    refine (connection_explained ran fd).2 text frames error (List.mem_filterMap.2 ⟨_, mem, ?_⟩)
    exact if_pos rfl

/-- A click, and its request in one frame. -/
def labClicks : List PageEvent := [.opened 0, .message (labEnvelope false) 1, .click 2]

def labPress : MaskedFrame := ⟨⟨true, WsOpcode.kText, Page.recordRequest true 1⟩, [2, 0, 1, 7], rfl⟩

def labPage : List ServerEvent := [labAccept, labReceive (labUpgrade ++ Ctl.wire [labPress])]

def labRequest : HttpRequest where
  method := str "GET"
  target := str "/ws"
  path := str "/ws"
  version := str "HTTP/1.1"
  headers := [(str "host", str "lab:8080"), (str "upgrade", str "websocket"),
    (str "connection", str "keep-alive, Upgrade"), (str "sec-websocket-version", str "13"),
    (str "sec-websocket-key", str "dGhlIHNhbXBsZSBub25jZQ=="), (str "origin", str "http://lab:8080")]

theorem labPress_link : PageLink [Page.recordRequest true 1] (labUpgrade ++ Ctl.wire [labPress]) := by
  have request : parseHttpRequest labUpgrade kMaxHeaderBytes = .ok (.request labRequest labUpgrade.length) := by
    decide +kernel
  have authorised : Authorised labRequest := by decide +kernel
  have sends : Sends (Page.recordRequest true 1) ([labPress].map MaskedFrame.toWsFrame) :=
    ⟨⟨Page.recordRequest true 1, [], by decide +kernel, by decide⟩, by decide⟩
  have carries : Carries [Page.recordRequest true 1] ([labPress] ++ []) := .cons sends (by decide +kernel) .nil
  exact .mk request authorised carries (List.prefix_refl _)

theorem commands_follow_clicks_lab :
    ∃ w os, run ControlWorld.step (.start labServer.build {} 1) labPage = .ok (w, os) ∧
      commandsOf (ofConnection 0 os.flatten) = [recordCommandText true] ∧
      ∃ on i t, recordCommandText true = recordCommandText on ∧ AskedAt 0 labClicks i on t := by
  obtain ⟨w, os, ran, page, -⟩ := commands_follow_clicks labServer.build {} 1 labPage
  obtain ⟨b, clicked⟩ := run_of_observations (show observations Browser.step (.load 0) labClicks =
    some [[], [], [.send (Page.recordRequest true 1)]] by decide +kernel)
  have seen : (observations ControlWorld.step (.start labServer.build {} 1) labPage).map
      (fun os => (received (ofConnection 0 os.flatten), commandsOf (ofConnection 0 os.flatten))) =
      some (labUpgrade ++ Ctl.wire [labPress], [recordCommandText true]) := by decide +kernel
  rw [observations, ran] at seen
  obtain ⟨stream, commands⟩ := Prod.mk.inj (Option.some.inj seen)
  obtain ⟨-, -, asked⟩ := page 0 0 labClicks b _ _ clicked (List.infix_refl _) (stream ▸ labPress_link)
  exact ⟨w, os, ran, commands, asked _ (commands ▸ List.mem_singleton_self _)⟩

/-- A receiver that hears of two of three commands. -/
example : commandTexts (sessionEvents {} { rounds := [
    { poll := .ready none (some [.frames [] [str "record on"] {}]) },
    { poll := .ready none (some [.frames (str "topic") [str "record off"] {}]) }] }) =
      [str "record on", str "record off"] := by decide +kernel

end Commands

end IpcRelay
