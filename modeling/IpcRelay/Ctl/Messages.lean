import IpcRelay.Ctl.FrameCodec
import IpcRelay.Ctl.Serving

/-!
# Messages in pieces

A client sends a message as one text frame and continuations, with pings and
pongs between them. `Assembles` says which frames may follow each other, and
what is heard in them: pings and whole messages. The server does for the frames
what it does for what is heard (`frames_heard`), however a message was cut.
-/

namespace IpcRelay.Ctl

open WsOpcode WsClose Machine Incremental

section Spec

/-- A frame with the mask that it is sent under. -/
structure MaskedFrame extends WsFrame where
  mask : Bytes
  four : mask.length = 4

/-- The bytes of frames. -/
def wire (fs : List MaskedFrame) : Bytes := fs.flatMap fun f => clientFrame f.toWsFrame f.mask

/-- What frames ask of the server. -/
inductive Heard where
  | ping (payload : Bytes)
  | message (text : Bytes)
  deriving DecidableEq, Repr

/-- The messages, in order. -/
def messagesOf (hs : List Heard) : List Bytes := hs.filterMap fun
  | .message text => some text
  | .ping _ => none

/-- The payloads of the pings, in order. -/
def pingsOf (hs : List Heard) : List Bytes := hs.filterMap fun
  | .ping payload => some payload
  | .message _ => none

/-- The payloads of the pongs among the reactions, in order. -/
def pongsOf (rs : List Reaction) : List Bytes := rs.filterMap fun
  | .frame opcode payload => if opcode = kPong then some payload else none
  | _ => none

/-- The opcode of the next piece, after the pieces of a message that has begun. -/
def nextOpcode (begun : Option Bytes) : UInt8 := if begun.isSome then kContinuation else kText

/-- The opcode that no piece may have then. -/
def wrongOpcode (begun : Option Bytes) : UInt8 := if begun.isSome then kText else kContinuation

/-- Frames that may follow each other, what is heard in them, and the pieces of a message that has begun before them
and after them. -/
inductive Assembles : Option Bytes → List WsFrame → List Heard → Option Bytes → Prop where
  | nil {begun : Option Bytes} : Assembles begun [] [] begun
  | ping {begun after : Option Bytes} {f : WsFrame} {fs : List WsFrame} {hs : List Heard} : f.opcode = kPing → f.fin →
      f.payload.length ≤ 125 → Assembles begun fs hs after → Assembles begun (f :: fs) (.ping f.payload :: hs) after
  | pong {begun after : Option Bytes} {f : WsFrame} {fs : List WsFrame} {hs : List Heard} : f.opcode = kPong → f.fin →
      f.payload.length ≤ 125 → Assembles begun fs hs after → Assembles begun (f :: fs) hs after
  | piece {begun after : Option Bytes} {f : WsFrame} {fs : List WsFrame} {hs : List Heard} :
      f.opcode = nextOpcode begun → f.fin = false → (begun.getD [] ++ f.payload).length ≤ kMaxWsMessage →
      Assembles (some (begun.getD [] ++ f.payload)) fs hs after → Assembles begun (f :: fs) hs after
  | last {begun after : Option Bytes} {f : WsFrame} {fs : List WsFrame} {hs : List Heard} :
      f.opcode = nextOpcode begun → f.fin → (begun.getD [] ++ f.payload).length ≤ kMaxWsMessage →
      Assembles none fs hs after → Assembles begun (f :: fs) (.message (begun.getD [] ++ f.payload) :: hs) after

/-- One text frame and continuations, with FIN on the last. -/
def piecesOf : UInt8 → List Bytes → List WsFrame
  | _, [] => []
  | opcode, p :: ps => { fin := ps.isEmpty, opcode := opcode, payload := p } :: piecesOf kContinuation ps

/-- A ping or a pong. -/
def WsFrame.isProbe (f : WsFrame) : Bool := f.opcode = kPing ∨ f.opcode = kPong

/-- The frames are the pieces of a message, with any pings and pongs between them. -/
structure Sends (text : Bytes) (fs : List WsFrame) : Prop where
  pieces : ∃ p ps, (p :: ps).flatten = text ∧ (fs.filter fun f => !f.isProbe) = piecesOf kText (p :: ps)
  probes : ∀ f ∈ fs, f.isProbe → f.fin ∧ f.payload.length ≤ 125

/-- What is heard in the frames of a message. -/
def heardIn (text : Bytes) (fs : List WsFrame) : List Heard := fs.filterMap fun f =>
  if f.opcode = kPing then some (.ping f.payload)
  else if f.opcode = kPong then none
  else if f.fin then some (.message text)
  else none

/-- What the server does for what it hears: a ping is answered with a pong, and a message is handled. -/
def hear (io : ClientIo) (v : Serving) : Heard → Exec Handled
  | .ping payload => .ok ⟨v.server, v.client.emit (.frame kPong payload), [.frame kPong payload]⟩
  | .message text => handleWsMessage v.server v.client io v.sent text

def hearStep (io : ClientIo) : StepFn Serving Heard (List Reaction) Fault := fun v x => do
  let h ← hear io v x
  .ok (h.serving v.sent, h.reactions)

/-- An open client whose frames are read, with the pieces of a message that has begun. -/
structure Client.Reads (c : Client) (begun : Option Bytes) : Prop where
  alive : ¬ (c.dead ∨ c.closeAfterWrite)
  websocket : c.websocket
  inMessage : c.inMessage = begun.isSome
  message : ∀ m ∈ begun, c.message = m

/-- A client but for its input and the pieces of a message. -/
def Client.quiet (c : Client) : Client := { c with input := [], message := [], inMessage := false }

def Serving.quiet (v : Serving) : Serving := { v with client := v.client.quiet }

end Spec

section Hearing

variable {io : ClientIo} {v : Serving} {s : ControlServer} {c : Client} {k : Nat} {f : WsFrame} {h : Handled}

theorem handleWsMessage_quiet (text : Bytes) : handleWsMessage s c.quiet io k text =
    (handleWsMessage s c io k text).map fun h => { h with client := h.client.quiet } := by
  obtain ⟨r, parsed, _⟩ := Json.parse_sound text 64
  simp only [handleWsMessage, parsed, ok_bind]
  split <;> rfl

/-- A message is always handled, and leaves the connection as it is but for the output. -/
theorem handleWsMessage_keeps (s : ControlServer) (c : Client) (io : ClientIo) (k : Nat) (text : Bytes) :
    ∃ h output, handleWsMessage s c io k text = .ok h ∧ h.client = { c with output := output } := by
  obtain ⟨r, _, cases⟩ := handleWsMessage_cases s c io k text
  rcases cases with ⟨_, _, _, _, ran, _⟩ | ⟨_, ran⟩
  · exact ⟨_, _, ran, rfl⟩
  · exact ⟨_, _, ran, rfl⟩

theorem Client.Reads.congr {begun : Option Bytes} (reads : c.Reads begun) (output input : Bytes) :
    Client.Reads { c with output := output, input := input } begun :=
  ⟨reads.alive, reads.websocket, reads.inMessage, reads.message⟩

theorem handleWsFrame_ping (opcode : f.opcode = kPing) : handleWsFrame s c io k f =
    .ok ⟨s, c.emit (.frame kPong f.payload), [.frame kPong f.payload]⟩ := if_pos opcode

theorem handleWsFrame_pong (opcode : f.opcode = kPong) : handleWsFrame s c io k f = .ok ⟨s, c, []⟩ := by
  unfold handleWsFrame
  rw [if_neg (by rw [opcode]; decide), if_pos opcode]

theorem handleWsFrame_data (opcode : f.opcode = kText ∨ f.opcode = kContinuation) : handleWsFrame s c io k f =
    if decide (f.opcode = kText) = c.inMessage then
      .ok (wsFail s c kProtocolError (str "unexpected continuation state"))
    else if (addPiece c f).message.length > kMaxWsMessage then
      .ok (wsFail s (addPiece c f) kTooBig (str "message too large"))
    else if f.fin then do
      let h ← handleWsMessage s (addPiece c f) io k (addPiece c f).message
      .ok { h with client := { h.client with message := [] } }
    else .ok ⟨s, addPiece c f, []⟩ := by
  have others : f.opcode ≠ kPing ∧ f.opcode ≠ kPong ∧ f.opcode ≠ kClose ∧ f.opcode ≠ kBinary := by
    rcases opcode with opcode | opcode
    · rw [opcode]
      decide
    · rw [opcode]
      decide
  unfold handleWsFrame
  rw [if_neg others.1, if_neg others.2.1, if_neg others.2.2.1, if_neg others.2.2.2, if_pos opcode]

/-- The pieces of messages are frames that the parser knows, and no control frames. -/
theorem data_known (opcode : f.opcode = kText ∨ f.opcode = kContinuation) :
    f.opcode ∈ knownOpcodes ∧ f.opcode &&& 0x08 = 0 ∧ f.isProbe = false := by
  unfold WsFrame.isProbe
  rcases opcode with opcode | opcode
  · rw [opcode]
    decide
  · rw [opcode]
    decide

theorem nextOpcode_data (begun : Option Bytes) : nextOpcode begun = kText ∨ nextOpcode begun = kContinuation := by
  cases begun with
  | none => exact .inl rfl
  | some _ => exact .inr rfl

theorem wrongOpcode_data (begun : Option Bytes) : wrongOpcode begun = kText ∨ wrongOpcode begun = kContinuation := by
  cases begun with
  | none => exact .inr rfl
  | some _ => exact .inl rfl

section Piece

variable {begun : Option Bytes}

theorem payload_fits {n : Nat} (fits : (begun.getD [] ++ f.payload).length ≤ n) : f.payload.length ≤ n := by
  rw [List.length_append] at fits
  omega

/-- The next piece is expected, and added to those before it. -/
theorem Client.Reads.next (reads : c.Reads begun) (opcode : f.opcode = nextOpcode begun) :
    decide (f.opcode = kText) ≠ c.inMessage ∧ (addPiece c f).message = begun.getD [] ++ f.payload := by
  unfold addPiece
  simp only
  rw [reads.inMessage, opcode]
  cases begun with
  | none => exact ⟨by decide, rfl⟩
  | some m =>
    refine ⟨by simp [nextOpcode, kText, kContinuation], ?_⟩
    rw [if_neg (by simp [nextOpcode, kText, kContinuation]), reads.message m rfl]
    rfl

theorem Client.Reads.wrong (reads : c.Reads begun) (opcode : f.opcode = wrongOpcode begun) :
    handleWsFrame s c io k f = .ok (wsFail s c kProtocolError (str "unexpected continuation state")) := by
  rw [handleWsFrame_data (opcode ▸ wrongOpcode_data begun), if_pos]
  rw [reads.inMessage, opcode]
  cases begun <;> rfl

theorem Client.Reads.piece (reads : c.Reads begun) (opcode : f.opcode = nextOpcode begun) (more : f.fin = false)
    (fits : (begun.getD [] ++ f.payload).length ≤ kMaxWsMessage) :
    handleWsFrame s c io k f = .ok ⟨s, addPiece c f, []⟩ ∧ (addPiece c f).Reads (some (begun.getD [] ++ f.payload)) := by
  obtain ⟨expected, message⟩ := reads.next opcode
  refine ⟨?_, reads.alive, reads.websocket, ?_, ?_⟩
  · rw [handleWsFrame_data (opcode ▸ nextOpcode_data begun), if_neg expected, message, if_neg (by omega),
      if_neg (by simp [more])]
  · show (!f.fin) = true
    rw [more]
    rfl
  · rintro m ⟨⟩
    exact message

/-- The last piece hands the message on. -/
theorem Client.Reads.last (reads : c.Reads begun) (opcode : f.opcode = nextOpcode begun) (fin : f.fin)
    (fits : (begun.getD [] ++ f.payload).length ≤ kMaxWsMessage) : ∃ h,
    handleWsFrame s c io k f = .ok h ∧ h.client.Reads none ∧
      handleWsMessage s c.quiet io k (begun.getD [] ++ f.payload) = .ok { h with client := h.client.quiet } := by
  obtain ⟨expected, message⟩ := reads.next opcode
  obtain ⟨h, output, ran, client⟩ := handleWsMessage_keeps s (addPiece c f) io k (begun.getD [] ++ f.payload)
  have quiet := @handleWsMessage_quiet io s (addPiece c f) k (begun.getD [] ++ f.payload)
  rw [ran] at quiet
  refine ⟨{ h with client := { h.client with message := [] } }, ?_, ?_, quiet⟩
  · rw [handleWsFrame_data (opcode ▸ nextOpcode_data begun), if_neg expected, message, if_neg (by omega), if_pos fin, ran]
    rfl
  · rw [client]
    refine ⟨reads.alive, reads.websocket, ?_, by simp⟩
    show (!f.fin) = false
    rw [fin]
    rfl

end Piece

/-- A frame of a client is taken from the front of its input. -/
theorem serveStep_frame (m : MaskedFrame) (alive : ¬ (v.client.dead ∨ v.client.closeAfterWrite))
    (ws : v.client.websocket) (known : m.opcode ∈ knownOpcodes) (fits : m.payload.length ≤ kMaxWsMessage)
    (control : m.opcode &&& 0x08 ≠ 0 → m.fin ∧ m.payload.length ≤ 125)
    (ran : handleWsFrame v.server v.client io v.sent m.toWsFrame = .ok h) (rest : Bytes) :
    serveStep io v (clientFrame m.toWsFrame m.mask ++ rest) = some (h.serving v.sent, rest, h.reactions) := by
  have sized : m.payload.length < 2 ^ 64 := Nat.lt_of_le_of_lt fits (by decide)
  refine serveStep_found alive ?_ (x := .frame m.toWsFrame) ran
  rw [ws, front_frames, parseFrame_client known fits sized control m.four rest]
  simp only [List.drop_left]

/-- One thing that is heard, and what is heard after it. -/
theorem run_heard {x : Heard} {hs : List Heard} {w : Serving} {oss : List (List Reaction)}
    (ran : hear io v.quiet x = .ok { h with client := h.client.quiet })
    (others : run (hearStep io) (h.serving v.sent).quiet hs = .ok (w, oss)) :
    run (hearStep io) v.quiet (x :: hs) = .ok (w, h.reactions :: oss) := by
  refine run_cons.2 ⟨(h.serving v.sent).quiet, h.reactions, oss, ?_, others, rfl⟩
  unfold hearStep
  rw [ran, ok_bind]
  rfl

theorem split_map {fs : List MaskedFrame} {gs : List WsFrame} (h : fs.map MaskedFrame.toWsFrame = f :: gs) :
    ∃ m ms, fs = m :: ms ∧ m.toWsFrame = f ∧ ms.map MaskedFrame.toWsFrame = gs := by
  cases fs with
  | nil => cases h
  | cons m ms =>
    cases h
    exact ⟨m, ms, rfl, rfl, rfl⟩

theorem wire_cons (m : MaskedFrame) (ms : List MaskedFrame) (rest : Bytes) :
    wire (m :: ms) ++ rest = clientFrame m.toWsFrame m.mask ++ (wire ms ++ rest) := by
  unfold wire
  rw [List.flatMap_cons, List.append_assoc]

/-- The server does for the frames what it does for what is heard in them, and takes just these frames. -/
theorem frames_heard {begun after : Option Bytes} {gs : List WsFrame} {hs : List Heard}
    (assembles : Assembles begun gs hs after) (fs : List MaskedFrame) (frames : fs.map MaskedFrame.toWsFrame = gs)
    (reads : v.client.Reads begun) (rest : Bytes) : ∃ v' oss,
    run (hearStep io) v.quiet hs = .ok (v'.quiet, oss) ∧
      Takes (serveStep io) v (wire fs ++ rest) v' rest oss.flatten ∧ v'.client.Reads after := by
  induction assembles generalizing fs v with
  | nil =>
    obtain rfl := List.map_eq_nil_iff.1 frames
    exact ⟨v, [], rfl, .done, reads⟩
  | ping opcode fin short _ ih =>
    obtain ⟨m, ms, rfl, rfl, others⟩ := split_map frames
    have step := serveStep_frame m reads.alive reads.websocket (by rw [opcode]; decide) (le_trans short (by decide))
      (fun _ => ⟨fin, short⟩) (@handleWsFrame_ping io v.server v.client v.sent _ opcode) (wire ms ++ rest)
    obtain ⟨v', oss, ran, takes, reads'⟩ :=
      @ih (Handled.serving ⟨v.server, v.client.emit (.frame kPong m.payload), [.frame kPong m.payload]⟩ v.sent) ms others
        (reads.congr _ _)
    rw [wire_cons]
    exact ⟨v', _, run_heard rfl ran, .item step takes, reads'⟩
  | pong opcode fin short _ ih =>
    obtain ⟨m, ms, rfl, rfl, others⟩ := split_map frames
    have step := serveStep_frame m reads.alive reads.websocket (by rw [opcode]; decide) (le_trans short (by decide))
      (fun _ => ⟨fin, short⟩) (@handleWsFrame_pong io v.server v.client v.sent _ opcode) (wire ms ++ rest)
    obtain ⟨v', oss, ran, takes, reads'⟩ := @ih v ms others reads
    rw [wire_cons]
    exact ⟨v', oss, ran, .item step takes, reads'⟩
  | @piece begun _ _ _ _ opcode more fits _ ih =>
    obtain ⟨m, ms, rfl, rfl, others⟩ := split_map frames
    obtain ⟨known, low, _⟩ := data_known (opcode ▸ nextOpcode_data _)
    obtain ⟨one, begins⟩ := @Client.Reads.piece io v.server v.client v.sent _ _ reads opcode more fits
    have step := serveStep_frame m reads.alive reads.websocket known (payload_fits fits)
      (fun high => absurd low high) one (wire ms ++ rest)
    obtain ⟨v', oss, ran, takes, reads'⟩ := @ih ⟨v.server, addPiece v.client m.toWsFrame, v.sent⟩ ms others begins
    rw [wire_cons]
    exact ⟨v', oss, ran, .item step takes, reads'⟩
  | last opcode fin fits _ ih =>
    obtain ⟨m, ms, rfl, rfl, others⟩ := split_map frames
    obtain ⟨known, low, _⟩ := data_known (opcode ▸ nextOpcode_data _)
    obtain ⟨h, one, ends, handled⟩ := @Client.Reads.last io v.server v.client v.sent _ _ reads opcode fin fits
    have step := serveStep_frame m reads.alive reads.websocket known (payload_fits fits)
      (fun high => absurd low high) one (wire ms ++ rest)
    obtain ⟨v', oss, ran, takes, reads'⟩ := @ih (h.serving v.sent) ms others ends
    rw [wire_cons]
    exact ⟨v', _, run_heard handled ran, .item step takes, reads'⟩

/-- What is found in the input is not put back. -/
theorem takes_input {v' : Serving} {input rest : Bytes} {os : List Reaction}
    (takes : Takes (serveStep io) v input v' rest os) : v'.client.input = v.client.input := by
  refine takes.keeps (P := fun u => u.client.input = v.client.input) ?_ rfl
  rintro u b u' b' o one same
  obtain ⟨_, x, d, _, rfl, _, sc⟩ := serveStep_cases one
  refine Eq.trans ?_ same
  cases sc with
  | frame _ _ fc => exact fc.keeps.1
  | _ => rfl

/-- Where some frames were taken, `handle_ws_frames` goes on with the rest. -/
theorem handleWsFrames_takes {v' : Serving} {rest : Bytes} {os : List Reaction} (ws : c.websocket)
    (takes : Takes (serveStep io) ⟨s, c.withInput [], k⟩ c.input v' rest os) (ws' : v'.client.websocket) :
    handleWsFrames (c.input.length + 1) s c io k =
      (handleWsFrames (rest.length + 1) v'.server (v'.client.withInput rest) io v'.sent).map (·.after os) := by
  have empty : v'.client.withInput [] = v'.client := by
    unfold Client.withInput
    rw [← show v'.client.input = [] from takes_input takes]
  obtain ⟨h, ran, drains⟩ := handleWsFrames_drains io _ s c k ws (Nat.lt_succ_self _)
  obtain ⟨h', ran', drains'⟩ := handleWsFrames_drains io (rest.length + 1) v'.server (v'.client.withInput rest) v'.sent ws'
    (Nat.lt_succ_self _)
  have start : (⟨v'.server, (v'.client.withInput rest).withInput [], v'.sent⟩ : Serving) = v' := by
    rw [show (v'.client.withInput rest).withInput [] = v'.client.withInput [] from rfl, empty]
  rw [start] at drains'
  obtain ⟨states, inputs, reactions⟩ := drains.functional (takes.drains drains')
  rw [ran, ran']
  refine congrArg Except.ok ?_
  obtain ⟨server, client, rs⟩ := h
  obtain ⟨server', client', rs'⟩ := h'
  obtain rfl : server = server' := congrArg Serving.server states
  have clients : client.withInput [] = client'.withInput [] := congrArg Serving.client states
  have same : client = client' := by
    rw [show client = (client.withInput []).withInput client.input from rfl, clients]
    change client'.withInput client.input = client'
    rw [show client.input = client'.input from inputs]
    rfl
  rw [same, show rs = os ++ rs' from reactions]
  rfl

end Hearing

section Sending

variable {text : Bytes} {fs : List WsFrame}

theorem heardIn_cons (text : Bytes) (f : WsFrame) (fs : List WsFrame) : heardIn text (f :: fs) =
    (if f.opcode = kPing then [.ping f.payload]
      else if f.opcode = kPong then []
      else if f.fin then [.message text]
      else []) ++ heardIn text fs := by
  unfold heardIn
  rw [List.filterMap_cons]
  split
  next missing =>
    split at missing
    · cases missing
    next ping =>
      split at missing
      next pong => rw [if_neg ping, if_pos pong, List.nil_append]
      next pong =>
        split at missing
        · cases missing
        next fin => rw [if_neg ping, if_neg pong, if_neg fin, List.nil_append]
  next x found =>
    split at found
    next ping =>
      cases found
      rw [if_pos ping, List.singleton_append]
    next ping =>
      split at found
      · cases found
      next pong =>
        split at found
        next fin =>
          cases found
          rw [if_neg ping, if_neg pong, if_pos fin, List.singleton_append]
        · cases found

theorem isProbe_iff (f : WsFrame) : f.isProbe = true ↔ f.opcode = kPing ∨ f.opcode = kPong := by
  simp [WsFrame.isProbe]

/-- The frames of a message may follow each other, and the message is heard in them. -/
theorem assembles_pieces {begun : Option Bytes} {ps : List Bytes}
    (pieces : (fs.filter fun f => !f.isProbe) = piecesOf (nextOpcode begun) ps)
    (whole : ps ≠ [] → begun.getD [] ++ ps.flatten = text) (ended : ps = [] → begun = none)
    (probes : ∀ f ∈ fs, f.isProbe → f.fin ∧ f.payload.length ≤ 125) (fits : text.length ≤ kMaxWsMessage) :
    Assembles begun fs (heardIn text fs) none := by
  induction fs generalizing begun ps with
  | nil =>
    cases ps with
    | nil =>
      rw [ended rfl]
      exact .nil
    | cons p ps => cases pieces
  | cons f fs ih =>
    have others : ∀ f ∈ fs, f.isProbe → f.fin ∧ f.payload.length ≤ 125 := fun g mem => probes g (List.mem_cons_of_mem _ mem)
    rw [heardIn_cons]
    by_cases probe : f.isProbe
    · obtain ⟨fin, short⟩ := probes f (List.mem_cons_self ..) probe
      rw [List.filter_cons_of_neg (by simp [probe])] at pieces
      have later := ih pieces whole ended others
      by_cases ping : f.opcode = kPing
      · rw [if_pos ping]
        exact .ping ping fin short later
      · have pong : f.opcode = kPong := ((isProbe_iff f).1 probe).resolve_left ping
        rw [if_neg ping, if_pos pong]
        exact .pong pong fin short later
    · have opcodes := (isProbe_iff f).not.1 probe
      rw [if_neg fun ping => opcodes (.inl ping), if_neg fun pong => opcodes (.inr pong)]
      rw [List.filter_cons_of_pos (by simp [probe])] at pieces
      cases ps with
      | nil => cases pieces
      | cons p ps =>
        obtain ⟨taken, rest⟩ := List.cons.inj pieces
        have all := whole (by simp)
        rw [List.flatten_cons, ← List.append_assoc] at all
        have length : (begun.getD [] ++ p).length ≤ kMaxWsMessage := by
          rw [← all, List.length_append] at fits
          omega
        subst taken
        cases ps with
        | nil =>
          rw [List.flatten_nil, List.append_nil] at all
          subst all
          exact .last rfl rfl length (@ih none [] rest (by simp) (fun _ => rfl) others)
        | cons q ps => exact .piece rfl rfl length (@ih (some (begun.getD [] ++ p)) _ rest (fun _ => all) (by simp) others)

theorem Sends.assembles (sends : Sends text fs) (fits : text.length ≤ kMaxWsMessage) :
    Assembles none fs (heardIn text fs) none := by
  obtain ⟨p, ps, whole, pieces⟩ := sends.pieces
  exact @assembles_pieces _ _ none _ pieces (fun _ => whole) (fun _ => rfl) sends.probes fits

theorem Sends.messages (sends : Sends text fs) : messagesOf (heardIn text fs) = [text] := by
  have counted : messagesOf (heardIn text fs) =
      (fs.filter fun f => !f.isProbe).filterMap fun f => if f.fin then some text else none := by
    unfold messagesOf heardIn
    rw [List.filterMap_filterMap, List.filterMap_filter]
    refine List.filterMap_congr fun f _ => ?_
    by_cases ping : f.opcode = kPing
    · simp [ping, WsFrame.isProbe]
    · by_cases pong : f.opcode = kPong
      · simp [pong, WsFrame.isProbe]
      · cases f.fin <;> simp [ping, pong, WsFrame.isProbe]
  have one : ∀ (ps : List Bytes) opcode p,
      (piecesOf opcode (p :: ps)).filterMap (fun f => if f.fin then some text else none) = [text] := by
    intro ps
    induction ps with
    | nil => exact fun _ _ => rfl
    | cons q ps ih => exact fun opcode p => ih kContinuation q
  obtain ⟨p, ps, _, pieces⟩ := sends.pieces
  rw [counted, pieces, one]

theorem pingsOf_heardIn (text : Bytes) (fs : List WsFrame) :
    pingsOf (heardIn text fs) = (fs.filter fun f => f.opcode = kPing).map WsFrame.payload := by
  unfold pingsOf heardIn
  rw [List.filterMap_filterMap, ← List.filterMap_eq_map, List.filterMap_filter]
  refine List.filterMap_congr fun f _ => ?_
  by_cases ping : f.opcode = kPing
  · simp [ping]
  · by_cases pong : f.opcode = kPong
    · simp [pong, kPing, kPong]
    · cases f.fin <;> simp [ping, pong]

/-- Each message that is heard has its last frame. -/
theorem Assembles.messages {begun after : Option Bytes} {hs : List Heard} (assembles : Assembles begun fs hs after) :
    (messagesOf hs).length = fs.countP fun f => !f.isProbe && f.fin := by
  unfold messagesOf
  induction assembles with
  | nil => rfl
  | ping opcode _ _ _ ih =>
    rw [List.countP_cons_of_neg (by simp [WsFrame.isProbe, opcode])]
    exact ih
  | pong opcode _ _ _ ih =>
    rw [List.countP_cons_of_neg (by simp [WsFrame.isProbe, opcode])]
    exact ih
  | piece _ more _ _ ih =>
    rw [List.countP_cons_of_neg (by simp [more])]
    exact ih
  | last opcode fin _ _ ih =>
    rw [List.countP_cons_of_pos (by simp [(data_known (opcode ▸ nextOpcode_data _)).2.2, fin]), ← ih]
    rfl

/-- The pongs are the answers to the pings. -/
theorem pongs_heard {io : ClientIo} {hs : List Heard} {v w : Serving} {oss : List (List Reaction)}
    (ran : run (hearStep io) v hs = .ok (w, oss)) : pongsOf oss.flatten = pingsOf hs := by
  induction hs generalizing v oss with
  | nil =>
    cases ran
    rfl
  | cons x hs ih =>
    obtain ⟨u, o, os, one, rest, rfl⟩ := run_cons.1 ran
    obtain ⟨h, heard, eq⟩ := bind_ok.1 one
    cases eq
    have later := ih rest
    unfold pongsOf pingsOf at later ⊢
    rw [List.flatten_cons, List.filterMap_append, later]
    cases x with
    | ping payload =>
      cases heard
      rfl
    | message text =>
      obtain ⟨_, _, cases⟩ := handleWsMessage_cases v.server v.client io v.sent text
      rcases cases with ⟨_, _, _, _, ran', _⟩ | ⟨_, ran'⟩
      · cases ran'.symm.trans heard
        rfl
      · cases ran'.symm.trans heard
        rfl

end Sending

section Fragments

/-- A message is handled once and whole however it was cut, with each ping answered in order, and the server goes on with
what follows. A frame that may not follow closes the connection, and of the messages before it only the whole ones are
handled. -/
theorem fragmentation_transparent (io : ClientIo) (s : ControlServer) (c : Client) (k : Nat) (fs : List MaskedFrame)
    (rest : Bytes) :
    let frames := fs.map MaskedFrame.toWsFrame
    (∀ text, c.Reads none → c.input = wire fs ++ rest → Sends text frames → text.length ≤ kMaxWsMessage →
      messagesOf (heardIn text frames) = [text] ∧
        ∃ w oss g, run (hearStep io) ⟨s, c.quiet, k⟩ (heardIn text frames) = .ok (w, oss) ∧
          handleWsFrames (c.input.length + 1) s c io k =
            (handleWsFrames (rest.length + 1) w.server g io w.sent).map (·.after oss.flatten) ∧
          pongsOf oss.flatten = (frames.filter fun f => f.opcode = kPing).map WsFrame.payload ∧
          g.Reads none ∧ g.input = rest ∧ g.quiet = w.client) ∧
    (∀ begun after hs bad, c.Reads begun → c.input = wire (fs ++ [bad]) ++ rest → Assembles begun frames hs after →
      bad.opcode = wrongOpcode after → bad.payload.length ≤ kMaxWsMessage →
      (messagesOf hs).length = (frames.countP fun f => !f.isProbe && f.fin) ∧
        ∃ w oss h, run (hearStep io) ⟨s, c.quiet, k⟩ hs = .ok (w, oss) ∧
          handleWsFrames (c.input.length + 1) s c io k = .ok h ∧ h.server = w.server ∧
          h.reactions = oss.flatten ++
            [.frame kClose (wsClosePayload kProtocolError (str "unexpected continuation state"))] ∧
          h.client.closeAfterWrite ∧ h.client.input = rest) := by
  intro frames
  constructor
  · intro text reads input sends fits
    have start : Client.Reads (c.withInput []) none := reads.congr c.output []
    obtain ⟨v', oss, ran, takes, reads'⟩ := @frames_heard io ⟨s, c.withInput [], k⟩ _ _ _ _ (sends.assembles fits) fs rfl
      start rest
    rw [← input] at takes
    refine ⟨sends.messages, v'.quiet, oss, v'.client.withInput rest, ran, ?_, ?_, reads'.congr v'.client.output rest, rfl, rfl⟩
    · exact handleWsFrames_takes reads.websocket takes reads'.websocket
    · rw [pongs_heard ran, pingsOf_heardIn]
  · intro begun after hs bad reads input assembles opcode fits
    have start : Client.Reads (c.withInput []) begun := reads.congr c.output []
    obtain ⟨v', oss, ran, takes, reads'⟩ := @frames_heard io ⟨s, c.withInput [], k⟩ _ _ _ _ assembles fs rfl
      start (wire [bad] ++ rest)
    obtain ⟨known, low, _⟩ := data_known (opcode ▸ wrongOpcode_data _)
    have step := serveStep_frame bad reads'.alive reads'.websocket known fits
      (fun high => absurd low high) (@Client.Reads.wrong io v'.server _ v'.sent _ _ reads' opcode) rest
    obtain ⟨h, handled, drains⟩ := handleWsFrames_drains io _ s c k reads.websocket (Nat.lt_succ_self _)
    have stops := takes.drains (.item (wire_cons bad [] rest ▸ step) (.more (serveStep_closed (.inr rfl) _)))
    rw [← List.append_assoc, show wire fs ++ wire [bad] = wire (fs ++ [bad]) from List.flatMap_append.symm, ← input] at stops
    obtain ⟨states, inputs, reactions⟩ := drains.functional stops
    refine ⟨assembles.messages, v'.quiet, oss, h, ran, handled, congrArg Serving.server states, reactions, ?_, inputs⟩
    have closing : (h.client.withInput []).closeAfterWrite = true := by
      rw [show h.client.withInput [] = _ from congrArg Serving.client states]
      rfl
    exact closing

/-- A message in three pieces, one of them empty, with a ping between them. -/
def labPieces : List MaskedFrame := [
  { fin := false, opcode := kText, payload := str "\x7b\"type\":\"record\",", mask := [1, 2, 3, 4], four := rfl },
  { fin := false, opcode := kContinuation, payload := [], mask := [0, 0, 0, 0], four := rfl },
  { fin := true, opcode := kPing, payload := str "lab", mask := [9, 8, 7, 6], four := rfl },
  { fin := true, opcode := kContinuation, payload := str "\"enabled\":true\x7d", mask := [5, 5, 5, 5], four := rfl }]

/-- A continuation that continues nothing. -/
def labStray : MaskedFrame :=
  { fin := true, opcode := kContinuation, payload := str "more", mask := [1, 2, 3, 4], four := rfl }

theorem fragmentation_transparent_lab :
    let text := str "\x7b\"type\":\"record\",\"enabled\":true\x7d"
    let frames := labPieces.map MaskedFrame.toWsFrame
    messagesOf (heardIn text frames) = [text] ∧
      ∃ w oss h, run (hearStep {}) ⟨labServer, { fd := 3, websocket := true }, 0⟩ (heardIn text frames) = .ok (w, oss) ∧
        handleWsFrames ((wire (labPieces ++ [labStray]) ++ []).length + 1) labServer
          { fd := 3, websocket := true, input := wire (labPieces ++ [labStray]) ++ [] } {} 0 = .ok h ∧
        h.reactions = oss.flatten ++
          [.frame kClose (wsClosePayload kProtocolError (str "unexpected continuation state"))] := by
  have sends : Sends (str "\x7b\"type\":\"record\",\"enabled\":true\x7d") (labPieces.map MaskedFrame.toWsFrame) :=
    ⟨⟨str "\x7b\"type\":\"record\",", [[], str "\"enabled\":true\x7d"], by decide, by decide⟩, by decide⟩
  have reads : ∀ input, Client.Reads { fd := 3, websocket := true, input := input } none :=
    fun _ => ⟨by simp, rfl, rfl, by simp⟩
  obtain ⟨once, _⟩ := (fragmentation_transparent {} labServer { fd := 3, websocket := true, input := wire labPieces ++ [] } 0
    labPieces []).1 _ (reads _) rfl sends (by decide)
  obtain ⟨_, w, oss, h, ran, handled, _, reactions, _⟩ := (fragmentation_transparent {} labServer
    { fd := 3, websocket := true, input := wire (labPieces ++ [labStray]) ++ [] } 0 labPieces []).2 none none _ labStray
    (reads _) rfl (sends.assembles (by decide)) rfl (by decide)
  exact ⟨once, w, oss, h, ran, handled, reactions⟩

end Fragments

end IpcRelay.Ctl
