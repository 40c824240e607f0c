import IpcRelay.Ctl.ControlServer
import IpcRelay.Ctl.Session

/-!
# One connection

To a connection the server is a sequence of visits: it is served after a poll,
it is sent an update, its output is written. `Life` is what can come of it from
its acceptance on. Its state follows its session (`Life.connected`): the commands,
the frames and the answers are explained by the stream that was received, and
the frames stand in the order of an open WebSocket that is closed at most once.
-/

namespace IpcRelay.Ctl

open WsOpcode WsClose Machine Incremental

/-- A server of one configuration, where the statistics that it keeps have a property. -/
structure ControlServer.Keeps (build : CtlBuild) (cfg : ControlServerConfig) (T : Bytes → Prop) (s : ControlServer) :
    Prop where
  build : s.build = build
  cfg : s.cfg = cfg
  stats : s.latestStatsNs ≠ 0 → T s.latestStats

theorem keeps_steady (build : CtlBuild) (cfg : ControlServerConfig) (T : Bytes → Prop) :
    Steady (ControlServer.Keeps build cfg T) := by
  intro s s' sameBuild sameCfg text ns h
  constructor
  · exact sameBuild.trans h.build
  · exact sameCfg.trans h.cfg
  · rw [text, ns]
    exact h.stats

/-- What the server does with a connection at a time. -/
inductive Visit where
  | serve (s : ControlServer) (p : ClientPoll)
  | push (s : ControlServer) (clock : Clock)
  | flush (results : List SendResult)

/-- The server that visits has a property. -/
def Visit.By (S : ControlServer → Prop) : Visit → Prop
  | .serve s _ | .push s _ => S s
  | .flush _ => True

/-- The connection after a visit, with what is done for it. -/
def Client.visit (c : Client) : Visit → Exec (Client × List Reaction)
  | .serve s p =>
    if c.dead then .ok (c, [])
    else do
      let h ← serveClient s c p
      .ok (h.client, h.reactions)
  | .push s clock =>
    let update : Reaction := .frame kText (s.statsEnvelope clock).2
    .ok (if takesUpdate c then (c.emit update, [update]) else (c, []))
  | .flush results => .ok (flush c results, [])

/-- A client that is one too many. -/
def refusedClient (fd : Nat) : Client := { ({ fd := fd } : Client).emit tooMany with closeAfterWrite := true }

/-- What can become of a connection, with all that was done for it. -/
inductive Life (S : ControlServer → Prop) : Client → List Reaction → Prop where
  | accepted (fd : Nat) : Life S { fd := fd } []
  | refused (fd : Nat) : Life S (refusedClient fd) [tooMany]
  | visit {c c' : Client} {rs os : List Reaction} {v : Visit} :
      Life S c rs → v.By S → c.visit v = .ok (c', os) → Life S c' (rs ++ os)

theorem Life.mono {S S' : ControlServer → Prop} (weaker : ∀ s, S s → S' s) {c : Client} {rs : List Reaction}
    (h : Life S c rs) : Life S' c rs := by
  induction h with
  | accepted fd => exact .accepted fd
  | refused fd => exact .refused fd
  | @visit _ _ _ _ v _ by_ ran ih =>
    refine ih.visit ?_ ran
    cases v with
    | serve s _ => exact weaker s by_
    | push s _ => exact weaker s by_
    | flush _ => trivial

/-- The bytes that were handed to the parsers. -/
def received (rs : List Reaction) : Bytes := rs.flatMap fun
  | .received data => data
  | _ => []

/-- What is done for a client is no reading. -/
theorem received_effective {rs : List Reaction} (h : effects rs = rs) : received rs = [] := by
  unfold received
  rw [← h, List.flatMap_eq_nil_iff]
  intro r mem
  cases r with
  | received data => simp [effects] at mem
  | _ => rfl

section Shape

/-- What comes before a WebSocket. -/
def Reaction.plain : Reaction → Bool
  | .received _ | .response .. | .api .. => true
  | _ => false

/-- What is done while a WebSocket is open. -/
def Reaction.ofOpen : Reaction → Bool
  | .frame opcode _ => opcode = kText ∨ opcode = kPong
  | .received _ | .command .. => true
  | _ => false

/-- The order in which things are done for a connection: with a WebSocket or not, before and after it is closed. -/
inductive Shape : Bool → Bool → List Reaction → Prop where
  | http {closing : Bool} {rs : List Reaction} : (∀ r ∈ rs, r.plain) → Shape false closing rs
  | opened {before after : List Reaction} {key : Bytes} : (∀ r ∈ before, r.plain) → (∀ r ∈ after, r.ofOpen) →
      Shape true false (before ++ .upgraded key :: after)
  | closed {before after : List Reaction} {key p : Bytes} : (∀ r ∈ before, r.plain) → (∀ r ∈ after, r.ofOpen) →
      Shape true true (before ++ .upgraded key :: (after ++ [.frame kClose p]))

variable {rs os : List Reaction} {closing : Bool}

theorem Shape.more (h : Shape false closing rs) (os : List Reaction) (plain : ∀ r ∈ os, r.plain) (closing' : Bool) :
    Shape false closing' (rs ++ os) := by
  cases h with
  | http before =>
    refine .http fun r mem => ?_
    rcases List.mem_append.1 mem with mem | mem
    · exact before r mem
    · exact plain r mem

theorem Shape.data (h : Shape true false rs) (os : List Reaction) (ofOpen : ∀ r ∈ os, r.ofOpen) : Shape true false (rs ++ os) := by
  cases h with
  | opened before after =>
    rw [List.append_assoc, List.cons_append]
    refine .opened before fun r mem => ?_
    rcases List.mem_append.1 mem with mem | mem
    · exact after r mem
    · exact ofOpen r mem

theorem Shape.close (h : Shape true false rs) (p : Bytes) : Shape true true (rs ++ [.frame kClose p]) := by
  cases h with
  | opened before after =>
    rw [List.append_assoc, List.cons_append]
    exact .closed before after

/-- A reading has its place before and in a WebSocket. -/
theorem Shape.read {ws : Bool} (h : Shape ws false rs) (data : Bytes) : Shape ws false (rs ++ [.received data]) := by
  have only {P : Reaction → Prop} (h : P (.received data)) : ∀ r ∈ [Reaction.received data], P r := by
    intro r mem
    rw [List.mem_singleton.1 mem]
    exact h
  cases ws with
  | false => exact h.more _ (only rfl) false
  | true => exact h.data _ (only rfl)

variable {v v' : Serving} {io : ClientIo} {x : Found} {d : Handled} {input rest : Bytes}
  {s : ControlServer} {c : Client} {k : Nat} {f : WsFrame}

theorem FrameCase.shape (fc : FrameCase s c io k f d) (ws : c.websocket) (opened : ¬ c.closeAfterWrite)
    (h : Shape c.websocket c.closeAfterWrite rs) :
    Shape d.client.websocket d.client.closeAfterWrite (rs ++ d.reactions) := by
  rw [ws, Bool.eq_false_iff.2 opened] at h
  have still : Shape c.websocket c.closeAfterWrite rs := by rwa [ws, Bool.eq_false_iff.2 opened]
  cases fc with
  | ping _ =>
    have whole := h.data [.frame kPong f.payload] (by simp [Reaction.ofOpen])
    simpa [Client.emit, ws, opened] using whole
  | pong _ => simpa using still
  | close _ => simpa [Client.emit, ws] using h.close (f.payload.take 2)
  | binary _ => simpa [wsFail, Client.emit, ws] using h.close _
  | unexpected _ _ => simpa [wsFail, Client.emit, ws] using h.close _
  | tooLarge _ _ _ => simpa [wsFail, addPiece, Client.emit, ws] using h.close _
  | piece _ _ _ _ => simpa [addPiece] using still
  | message _ _ _ _ ran =>
    obtain ⟨r, _, cases⟩ := handleWsMessage_cases s (addPiece c f) io k (addPiece c f).message
    rcases cases with ⟨_, _, frames, error, ran', _⟩ | ⟨_, ran'⟩
    · cases ran'.symm.trans ran
      have whole := h.data [.command (readRequest r).command frames error, .frame kText (commandResult
        (readRequest r).id (readRequest r).command error.isNone (error.getD (readRequest r).error))]
        (by simp [Reaction.ofOpen])
      simpa [wsSend, Handled.after, addPiece, Client.emit, ws, opened] using whole
    · cases ran'.symm.trans ran
      have whole := h.data [.frame kText (commandResult (readRequest r).id (readRequest r).command false
        (readRequest r).error)] (by simp [Reaction.ofOpen])
      simpa [wsSend, addPiece, Client.emit, ws, opened] using whole

theorem ServeCase.shape (sc : ServeCase io v x d) (opened : ¬ v.client.closeAfterWrite)
    (h : Shape v.client.websocket v.client.closeAfterWrite rs) :
    Shape d.client.websocket d.client.closeAfterWrite (rs ++ d.reactions) := by
  -- a response, in place of a WebSocket
  have answer (s : ControlServer) (r : Reaction) (plain : r.plain) (http : ¬ v.client.websocket) :
      Shape (respond s v.client r).client.websocket true (rs ++ [r]) := by
    rw [Bool.eq_false_iff.2 http] at h
    have whole := h.more [r] (by simp [plain]) true
    simpa [respond, Client.emit, http] using whole
  cases sc with
  | badFrame ws =>
    rw [ws, Bool.eq_false_iff.2 opened] at h
    simpa [rejectWsInput, wsFail, Client.emit, ws] using h.close _
  | frame ws _ fc => exact fc.shape ws opened h
  | badRequest http => exact answer _ _ rfl http
  | api http _ => exact answer _ _ rfl http
  | response http _ => exact answer _ _ rfl http
  | @upgrade req key http _ _ =>
    rw [Bool.eq_false_iff.2 http] at h
    cases h with
    | http plain =>
      have whole : Shape true false (rs ++ .upgraded key :: [.frame kText v.server.helloJson,
        .frame kText (v.server.statsEnvelope io.clock).2]) := .opened plain (by simp [Reaction.ofOpen])
      simpa [greet, wsSend, Handled.after, Client.emit, opened] using whole

theorem drains_shape (h : Drains (serveStep io) v input v' rest os)
    (shape : Shape v.client.websocket v.client.closeAfterWrite rs) :
    Shape v'.client.websocket v'.client.closeAfterWrite (rs ++ os) := by
  induction h generalizing rs with
  | more _ =>
    rw [List.append_nil]
    exact shape
  | item one _ ih =>
    obtain ⟨alive, x, d, _, rfl, rfl, sc⟩ := serveStep_cases one
    rw [← List.append_assoc]
    exact ih (sc.shape (not_or.1 alive).2 shape)

end Shape

section Output

variable {v v' : Serving} {io : ClientIo} {x : Found} {d : Handled} {input rest : Bytes} {os : List Reaction}

/-- What is appended to `out` is what the reactions send. -/
theorem ServeCase.output (sc : ServeCase io v x d) :
    d.client.output = v.client.output ++ d.reactions.flatMap Reaction.bytes := by
  cases sc with
  | frame _ _ fc =>
    cases fc with
    | message _ _ _ _ ran =>
      obtain ⟨r, _, cases⟩ := handleWsMessage_cases v.server (addPiece v.client _) io v.sent (addPiece v.client _).message
      rcases cases with ⟨_, _, _, _, ran', _⟩ | ⟨_, ran'⟩
      · cases ran'.symm.trans ran
        simp [wsSend, Handled.after, Client.emit, addPiece, Reaction.bytes]
      · cases ran'.symm.trans ran
        simp [wsSend, Client.emit, addPiece]
    | _ => simp [wsFail, Client.emit, addPiece]
  | upgrade => simp [greet, wsSend, Handled.after, Client.emit]
  | _ => simp [rejectWsInput, wsFail, Ctl.badRequest, respond, Client.emit]

theorem drains_output (h : Drains (serveStep io) v input v' rest os) :
    v'.client.output = v.client.output ++ os.flatMap Reaction.bytes := by
  induction h with
  | more _ => simp
  | item one _ ih =>
    obtain ⟨_, x, d, _, rfl, rfl, sc⟩ := serveStep_cases one
    rw [ih, List.flatMap_append, ← List.append_assoc]
    exact congrArg (· ++ _) sc.output

/-- Some of `out` was written, or the connection has ended: nothing else has changed. -/
structure Client.Written (c c' : Client) : Prop where
  fd : c'.fd = c.fd
  websocket : c'.websocket = c.websocket
  output : c'.output <:+ c.output
  state : ¬ c'.dead → c' = { c with output := c'.output }

theorem Client.Written.refl (c : Client) : c.Written c := ⟨rfl, rfl, List.suffix_rfl, fun _ => rfl⟩

theorem Client.Written.trans {c c' c'' : Client} (h : c.Written c') (h' : c'.Written c'') : c.Written c'' where
  fd := h'.fd.trans h.fd
  websocket := h'.websocket.trans h.websocket
  output := h'.output.trans h.output
  state living := by
    have second := h'.state living
    have dead := congrArg Client.dead second
    rw [dead] at living
    rw [second, h.state living]

/-- The connection has ended. -/
theorem Client.Written.dies {c c' : Client} (fd : c'.fd = c.fd) (ws : c'.websocket = c.websocket)
    (output : c'.output = c.output) (dead : c'.dead) : c.Written c' :=
  ⟨fd, ws, output ▸ List.suffix_rfl, fun living => absurd dead living⟩

theorem writeClient_written (c : Client) (results : List SendResult) : c.Written (writeClient c results) := by
  have empty (c : Client) : c.Written { c with dead := c.dead || c.closeAfterWrite } := by
    refine ⟨rfl, rfl, List.suffix_rfl, fun living => ?_⟩
    simp only [Bool.or_eq_true, not_or, Bool.not_eq_true] at living
    simp [living.1, living.2]
  induction results generalizing c with
  | nil =>
    unfold writeClient
    split
    · exact empty c
    · exact .refl c
  | cons r results ih =>
    unfold writeClient
    split
    · exact empty c
    · cases r with
      | sent n =>
        simp only
        split
        · have first : c.Written { c with output := c.output.drop n } :=
            ⟨rfl, rfl, List.drop_suffix .., fun _ => rfl⟩
          exact first.trans (ih _)
        · exact .dies rfl rfl rfl rfl
      | interrupted => exact ih c
      | again => exact .refl c
      | error => exact .dies rfl rfl rfl rfl

theorem flush_written (c : Client) (results : List SendResult) : c.Written (flush c results) := by
  unfold flush
  split
  · exact writeClient_written c results
  · exact .refl c

end Output

section Connected

/-- A connection follows its session. -/
structure Connected (S : ControlServer → Prop) (c : Client) (rs : List Reaction) : Prop where
  /-- What is done for it has its order, and a close frame is the last. -/
  shape : ∃ closing, Shape c.websocket closing rs ∧ (¬ c.dead → closing = c.closeAfterWrite)
  /-- What is in `out` is the end of what was sent. -/
  output : c.output <:+ rs.flatMap Reaction.bytes
  /-- What was done is explained by the stream; while it is open, its state is that of the session. -/
  session : ∃ phase rest items, Drains sessionStep .http (received rs) phase rest items ∧ Explained S rs items ∧
    (¬ (c.dead ∨ c.closeAfterWrite) → c.At phase ∧ c.input = rest)

variable {S : ControlServer → Prop} {c c' : Client} {rs os : List Reaction}

theorem Connected.accepted (fd : Nat) : Connected S { fd := fd } [] where
  shape := ⟨false, .http (by simp), fun _ => rfl⟩
  output := List.suffix_rfl
  session := ⟨.http, [], [], .more rfl, .quiet rfl, fun _ => ⟨.http (by simp) (by simp) rfl rfl, rfl⟩⟩

theorem Connected.refused (fd : Nat) : Connected S (refusedClient fd) [tooMany] where
  shape := ⟨true, .http (by simp [tooMany, Reaction.plain]), fun _ => rfl⟩
  output := by simp [refusedClient, Client.emit]
  session := ⟨.http, [], [], .more rfl, respond_explained (s := labServer) (c := { fd := fd }) (by simp [tooMany])
    (by simp [tooMany]) (by simp [tooMany]) rfl, fun alive => absurd (.inr rfl) alive⟩

/-- Writing, and the end of a connection, change nothing that its session knows. -/
theorem Connected.written (h : Connected S c rs) (w : c.Written c') : Connected S c' rs where
  shape := by
    obtain ⟨closing, shape, same⟩ := h.shape
    refine ⟨closing, w.websocket ▸ shape, fun living => ?_⟩
    have fields := w.state living
    rw [congrArg Client.dead fields] at living
    exact (same living).trans (congrArg Client.closeAfterWrite fields).symm
  output := w.output.trans h.output
  session := by
    obtain ⟨phase, rest, items, drains, explained, stands⟩ := h.session
    refine ⟨phase, rest, items, drains, explained, fun alive => ?_⟩
    have fields := w.state (not_or.1 alive).1
    have dead := congrArg Client.dead fields
    have closing := congrArg Client.closeAfterWrite fields
    have message := congrArg Client.message fields
    have inMessage := congrArg Client.inMessage fields
    rw [dead, closing] at alive
    obtain ⟨stands, input⟩ := stands alive
    exact ⟨stands.congr dead closing w.websocket message inMessage, (congrArg Client.input fields).trans input⟩

/-- What comes in is handled as the session goes on with it. -/
theorem Connected.handled (steady : Steady S) {s : ControlServer} (hs : S s) (h : Connected S c rs)
    (alive : ¬ (c.dead ∨ c.closeAfterWrite)) {io : ClientIo} {k : Nat} {data : Bytes} {d : Handled}
    (drains : Drains (serveStep io) ⟨s, c.withInput [], k⟩ (c.input ++ data) (d.idle k) d.client.input os) :
    Connected S d.client (rs ++ .received data :: os) where
  shape := by
    obtain ⟨closing, shape, same⟩ := h.shape
    rw [same (not_or.1 alive).1] at shape
    have opened := Bool.eq_false_iff.2 (not_or.1 alive).2
    have read : Shape c.websocket c.closeAfterWrite (rs ++ [.received data]) := by
      rw [opened] at shape ⊢
      exact shape.read data
    have whole := drains_shape drains read
    rw [List.append_assoc] at whole
    exact ⟨d.client.closeAfterWrite, whole, fun _ => rfl⟩
  output := by
    have out : d.client.output = c.output ++ os.flatMap Reaction.bytes := drains_output drains
    obtain ⟨sent, before⟩ := h.output
    refine ⟨sent, ?_⟩
    rw [out, ← List.append_assoc, before, List.flatMap_append, List.flatMap_cons]
    rfl
  session := by
    obtain ⟨phase, rest, items, before, explained, stands⟩ := h.session
    obtain ⟨stands, input⟩ := stands alive
    have stands : (c.withInput []).At phase := stands.congr rfl rfl rfl rfl rfl
    obtain ⟨phase', items', after, ⟨_, stands'⟩, explained'⟩ := drains_explained steady hs stands drains
    refine ⟨phase', d.client.input, items ++ items', ?_, explained.append ?_, fun _ => ⟨?_, rfl⟩⟩
    · rw [input] at after
      have stream : received (rs ++ .received data :: os) = received rs ++ data := by
        have silent := received_effective (drains_effective drains)
        unfold received at silent ⊢
        rw [List.flatMap_append, List.flatMap_cons, silent, List.append_nil]
      rw [stream]
      exact before.append sessionStep_stable after
    · exact explained'.read data
    · exact stands'.congr rfl rfl rfl rfl rfl

/-- What a last request is answered is sent before the connection ends. -/
theorem Connected.last {s : ControlServer} (hs : S s) (h : Connected S c rs) (living : ¬ c.dead)
    (opened : ¬ c.closeAfterWrite) (http : ¬ c.websocket) {io : ClientIo} {k : Nat} {x : Found} {d : Handled} {rest : Bytes}
    (sc : ServeCase io ⟨s, { c with input := [], dead := true }, k⟩ x d) :
    Connected S (d.client.withInput rest) (rs ++ d.reactions) where
  shape := by
    obtain ⟨closing, shape, same⟩ := h.shape
    rw [same living] at shape
    exact ⟨_, sc.shape opened shape, fun _ => rfl⟩
  output := by
    have out : d.client.output = c.output ++ d.reactions.flatMap Reaction.bytes := sc.output
    obtain ⟨sent, before⟩ := h.output
    refine ⟨sent, ?_⟩
    rw [show (d.client.withInput rest).output = d.client.output from rfl, out, ← List.append_assoc, before,
      List.flatMap_append]
  session := by
    obtain ⟨phase, rest', items, before, explained, _⟩ := h.session
    have silent := received_effective sc.effective
    have stream : received (rs ++ d.reactions) = received rs := by
      unfold received at silent ⊢
      rw [List.flatMap_append, silent, List.append_nil]
    rw [stream]
    have more : Explained S d.reactions [] := sc.explained_http hs http rfl
    have whole := explained.append more
    rw [List.append_nil] at whole
    refine ⟨phase, rest', items, before, whole, fun alive => absurd (.inl ?_) alive⟩
    exact sc.keeps.2

/-- What a call of `read_client` leaves. -/
theorem Connected.read (steady : Steady S) {s : ControlServer} (hs : S s) (h : Connected S c rs) (living : ¬ c.dead)
    {io : ClientIo} {k : Nat} {results : List RecvResult} {d : Handled} (rc : ReadCase s c io k results d) :
    Connected S d.client (rs ++ d.reactions) := by
  cases rc with
  | closing _ =>
    rw [List.append_nil]
    refine h.written ⟨rfl, rfl, List.suffix_rfl, fun alive => ?_⟩
    simp only [Bool.or_eq_true, not_or] at alive
    simp [living, alive.2]
  | gone _ =>
    rw [List.append_nil]
    exact h.written (.dies rfl rfl rfl rfl)
  | last opened http _ _ sc => exact h.last hs living opened http sc
  | handled alive _ reactions drains =>
    rw [reactions]
    exact h.handled steady hs alive drains

/-- A poll of a connection never faults. -/
theorem serveClient_cases (s : ControlServer) (c : Client) (p : ClientPoll) (living : ¬ c.dead) :
    ∃ h d, serveClient s c p = .ok h ∧ d.client.Written h.client ∧ h.reactions = d.reactions ∧ h.server = d.server ∧
      (d = ⟨s, c, []⟩ ∨ ∃ results, p.input = some results ∧ ReadCase s c p.io 0 results d) := by
  have fails {d g : Client} (wrote : d.Written g) : d.Written (if p.failed then { g with dead := true } else g) := by
    refine wrote.trans ?_
    split_ifs
    · exact .dies rfl rfl rfl rfl
    · exact .refl _
  have writes (d : Client) (results : List SendResult) :
      d.Written (if !d.dead then writeClient d results else d) := by
    split_ifs
    · exact writeClient_written ..
    · exact .refl _
  unfold serveClient
  cases input : p.input with
  | none =>
    refine ⟨_, ⟨s, c, []⟩, rfl, ?_, rfl, rfl, .inl rfl⟩
    refine fails ?_
    cases p.output with
    | none => exact .refl _
    | some results => exact writes c results
  | some results =>
    obtain ⟨d, read, rc⟩ := readClient_cases s c p.io 0 results living
    simp only [read, ok_bind]
    refine ⟨_, d, rfl, ?_, rfl, rfl, .inr ⟨results, rfl, rc⟩⟩
    refine fails ?_
    cases p.output with
    | none => exact .refl _
    | some results => exact writes d.client results

theorem visit_serve {s : ControlServer} {p : ClientPoll} {h : Handled} (living : ¬ c.dead)
    (ran : serveClient s c p = .ok h) : c.visit (.serve s p) = .ok (h.client, h.reactions) := by
  change (if c.dead then _ else _) = _
  rw [if_neg living, ran, ok_bind]

/-- An update is sent to an open WebSocket. -/
theorem Connected.push {s : ControlServer} (hs : S s) (h : Connected S c rs) (takes : takesUpdate c) {clock : Clock} :
    Connected S (c.emit (.frame kText (s.statsEnvelope clock).2)) (rs ++ [.frame kText (s.statsEnvelope clock).2]) := by
  unfold takesUpdate at takes
  simp only [Bool.and_eq_true, Bool.not_eq_true', decide_eq_true_eq] at takes
  obtain ⟨⟨⟨ws, living⟩, opened⟩, _⟩ := takes
  obtain ⟨closing, shape, same⟩ := h.shape
  rw [same (by simp [living]), ws, opened] at shape
  obtain ⟨phase, rest, items, drains, explained, stands⟩ := h.session
  constructor
  · refine ⟨false, ?_, fun _ => opened.symm⟩
    have whole := shape.data [.frame kText (s.statsEnvelope clock).2] (by simp [Reaction.ofOpen])
    rwa [← ws] at whole
  · obtain ⟨sent, before⟩ := h.output
    refine ⟨sent, ?_⟩
    rw [List.flatMap_append, List.flatMap_singleton, ← before, List.append_assoc]
    rfl
  · have informs : Explained S [.frame kText (s.statsEnvelope clock).2] [] :=
      .frame (.informs ⟨s, hs, .inr ⟨clock, rfl⟩⟩) rfl
    have whole := explained.append informs
    rw [List.append_nil] at whole
    have stream : received (rs ++ [.frame kText (s.statsEnvelope clock).2]) = received rs := by
      unfold received
      rw [List.flatMap_append, List.flatMap_singleton, List.append_nil]
    refine ⟨phase, rest, items, stream ▸ drains, whole, fun alive => ?_⟩
    obtain ⟨stands, input⟩ := stands alive
    exact ⟨stands.congr rfl rfl rfl rfl rfl, input⟩

/-- A visit keeps a connection on the way of its session. -/
theorem Connected.visit (steady : Steady S) {v : Visit} (by_ : v.By S) (h : Connected S c rs)
    (ran : c.visit v = .ok (c', os)) : Connected S c' (rs ++ os) := by
  cases v with
  | serve s p =>
    by_cases dead : c.dead
    · rw [show c.visit (.serve s p) = .ok (c, []) from if_pos dead] at ran
      cases ran
      rw [List.append_nil]
      exact h
    · obtain ⟨g, d, ran', w, reactions, _, what⟩ := serveClient_cases s c p dead
      rw [visit_serve dead ran'] at ran
      cases ran
      rw [reactions]
      refine Connected.written ?_ w
      rcases what with rfl | ⟨results, _, rc⟩
      · rw [List.append_nil]
        exact h
      · exact h.read steady by_ dead rc
  | push s clock =>
    change Except.ok (if takesUpdate c then _ else _) = _ at ran
    split at ran
    next takes =>
      cases ran
      exact h.push by_ takes
    next =>
      cases ran
      rw [List.append_nil]
      exact h
  | flush results =>
    cases ran
    rw [List.append_nil]
    exact h.written (flush_written ..)

/-- Whatever happens to a connection, it follows its session. -/
theorem Life.connected (steady : Steady S) (h : Life S c rs) : Connected S c rs := by
  induction h with
  | accepted fd => exact .accepted fd
  | refused fd => exact .refused fd
  | visit _ by_ ran ih => exact ih.visit steady by_ ran

end Connected

end IpcRelay.Ctl
