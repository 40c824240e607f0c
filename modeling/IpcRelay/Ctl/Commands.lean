import IpcRelay.Ctl.Visits

/-!
# Who commands the receiver

Commands are published for connections whose first request may open a WebSocket,
one for each message that asks for one, in order (`commands_of_connections`). Bytes
that are read together with the end of the stream are not handled: what they ask
for is lost (`eof_together_iff`).
-/

namespace IpcRelay.Ctl

open WsOpcode WsClose Machine Incremental

section Session

variable {phase : Phase} {stream rest : Bytes} {items : List Item}

/-- Nothing is found once the reading has ended. -/
theorem drains_closed {phase' : Phase} (h : Drains sessionStep .closed stream phase' rest items) : items = [] :=
  ((Drains.more rfl).functional h).2.2.symm

/-- A message is found behind a request that may open a WebSocket. -/
theorem texts_authorised (h : Drains sessionStep .http stream phase rest items) (texts : textsOf items ≠ []) :
    ∃ req consumed, parseHttpRequest stream kMaxHeaderBytes = .ok (.request req consumed) ∧ Authorised req := by
  cases h with
  | more _ => exact absurd rfl texts
  | item one others =>
    obtain ⟨websocket, x, reads, found, take⟩ := sessionStep_cases.1 one
    cases reads
    rw [front_request] at found
    cases parsed : parseHttpRequest stream kMaxHeaderBytes with
    | error e =>
      rw [parsed] at found
      cases found
    | ok r =>
      rw [parsed] at found
      cases r with
      | needMore => cases found
      | error e =>
        cases found
        cases take
        rw [drains_closed others] at texts
        exact absurd rfl texts
      | request req consumed =>
        cases found
        refine ⟨req, consumed, rfl, ?_⟩
        by_contra refused
        rw [take_request, if_neg refused] at take
        cases take
        rw [drains_closed others] at texts
        exact absurd rfl texts

end Session

section Histories

variable {S : ControlServer → Prop} {G : Client → Prop} {c : Client} {rs : List Reaction}

/-- What was done for a connection is explained by its stream, also at the shutdown. -/
theorem Ended.session (steady : Steady S) (h : Ended S G c rs) :
    ∃ phase rest items, Drains sessionStep .http (received rs) phase rest items ∧ Explained S rs items := by
  cases h with
  | life life =>
    obtain ⟨phase, rest, items, drains, explained, _⟩ := (life.connected steady).session
    exact ⟨phase, rest, items, drains, explained⟩
  | @goingAway rs life _ _ =>
    obtain ⟨phase, rest, items, drains, explained, _⟩ := (life.connected steady).session
    have stream : received (rs ++ [Ctl.goingAway]) = received rs := by
      unfold received
      rw [List.flatMap_append, List.flatMap_singleton]
      exact List.append_nil _
    have closes : Explained S [Ctl.goingAway] [] := .frame .fail rfl
    have whole := explained.append closes
    rw [List.append_nil] at whole
    exact ⟨phase, rest, items, stream ▸ drains, whole⟩

/-- A command comes after an upgrade. -/
theorem Shape.upgraded_before {ws closing : Bool} (h : Shape ws closing rs) {before after : List Reaction} {text : Bytes}
    {frames : List Bytes} {error : Option Bytes} (split : rs = before ++ .command text frames error :: after) :
    ∃ key, .upgraded key ∈ before := by
  -- what stands before the upgrade is plain, so the command stands behind it
  have behind {first second : List Reaction} {key : Bytes} (plain : ∀ r ∈ first, r.plain)
      (same : first ++ .upgraded key :: second = before ++ .command text frames error :: after) :
      ∃ key, .upgraded key ∈ before := by
    rcases List.append_eq_append_iff.1 same with ⟨more, rfl, tail⟩ | ⟨more, rfl, tail⟩
    · cases more with
      | nil => cases tail
      | cons r more =>
        cases tail
        exact ⟨key, by simp⟩
    · cases more with
      | nil => cases tail
      | cons r more =>
        cases tail
        have bad := plain (.command text frames error) (by simp)
        cases bad
  cases h with
  | http plain =>
    rw [split] at plain
    have bad := plain (.command text frames error) (by simp)
    cases bad
  | opened plain _ => exact behind plain split
  | closed plain _ => exact behind plain split

theorem Ended.upgraded_before (steady : Steady S) (h : Ended S G c rs) {before after : List Reaction} {text : Bytes}
    {frames : List Bytes} {error : Option Bytes} (split : rs = before ++ .command text frames error :: after) :
    ∃ key, .upgraded key ∈ before := by
  cases h with
  | life life =>
    obtain ⟨_, shape, _⟩ := (life.connected steady).shape
    exact shape.upgraded_before split
  | goingAway life _ _ =>
    obtain ⟨_, shape, _⟩ := (life.connected steady).shape
    rcases List.eq_nil_or_concat after with rfl | ⟨after, last, rfl⟩
    · cases (List.append_inj' split rfl).2
    · rw [List.concat_eq_append, ← List.cons_append, ← List.append_assoc] at split
      exact shape.upgraded_before (List.append_inj' split rfl).1

end Histories

/-- In every run, the commands that are published for a connection are `record on` and `record off`, one for each
message of its stream that asks for one, in order, behind a first request that may open a WebSocket. The stream is what
the visits of the connection read, one behind the other. -/
theorem commands_of_connections (build : CtlBuild) (cfg : ControlServerConfig) (nextUpdateNs : UInt64)
    (es : List ServerEvent) : ∃ w os, run ControlWorld.step (.start build cfg nextUpdateNs) es = .ok (w, os) ∧
      ∀ fd, let rs := ofConnection fd os.flatten
        received rs =
          readFrom fd (collect ControlWorld.step (fun w e _ => w.reads e) (.start build cfg nextUpdateNs) es) ∧
        commandsOf rs = (textsOf (itemsOf (received rs))).filterMap recordCommand ∧
        (∀ command ∈ commandsOf rs, command = str "record on" ∨ command = str "record off") ∧
        (∀ text frames error, .command text frames error ∈ rs →
          frames = (if cfg.commandTopic ≠ [] then [cfg.commandTopic] else []) ++ [text]) ∧
        (commandsOf rs ≠ [] → ∃ req consumed,
          parseHttpRequest (received rs) kMaxHeaderBytes = .ok (.request req consumed) ∧ Authorised req) ∧
        ∀ before after text frames error, rs = before ++ .command text frames error :: after →
          ∃ key, .upgraded key ∈ before := by
  obtain ⟨w, os, ran⟩ := control_total build cfg nextUpdateNs es
  have history := control_ran ran
  refine ⟨w, os, ran, fun fd => ?_⟩
  obtain ⟨c, _, ended⟩ := history.all fd
  have steady := keeps_steady build cfg fun _ => True
  obtain ⟨phase, rest, items, drains, explained⟩ := ended.session steady
  have commands := explained.commands
  rw [← itemsOf_eq drains] at commands
  refine ⟨run_reads ran fd, commands, ?_, ?_, ?_, ?_⟩
  · intro command mem
    rw [commands] at mem
    obtain ⟨text, _, found⟩ := List.mem_filterMap.1 mem
    exact recordCommand_texts found
  · intro text frames error mem
    obtain ⟨s, hs, sent⟩ := explained.sent text frames error mem
    rw [← hs.cfg]
    exact congrArg Prod.fst sent
  · intro commanded
    apply texts_authorised drains
    intro quiet
    rw [commands, itemsOf_eq drains] at commanded
    unfold requestsOf at commanded
    rw [quiet] at commanded
    exact commanded rfl
  · intro before after text frames error split
    exact ended.upgraded_before steady split

/-- A client comes in. -/
def labAccept : ServerEvent := .round { poll := .ready { accepts := 1 } }

/-- Each client sends some bytes. -/
def labReceive (data : Bytes) : ServerEvent :=
  .round { poll := .ready { client := fun _ => { input := some [.data data] } } }

def labRecord : Bytes := labFrame kText (str "\x7b\"type\":\"record\",\"enabled\":true\x7d")

/-- A request to record is sent, and once more together with the end of the stream. -/
def labCommands : List ServerEvent := [labAccept, labReceive labUpgrade, labReceive labRecord,
  .round { poll := .ready { client := fun _ => { input := some [.data labRecord, .eof] } } }]

theorem commands_of_connections_lab : ∃ w os,
    run ControlWorld.step (.start labServer.build {} 1) labCommands = .ok (w, os) ∧
    readFrom 0 (collect ControlWorld.step (fun w e _ => w.reads e) (.start labServer.build {} 1) labCommands) =
      labUpgrade ++ labRecord ∧
    commandsOf (ofConnection 0 os.flatten) = [str "record on"] ∧
    ∃ req consumed, parseHttpRequest (labUpgrade ++ labRecord) kMaxHeaderBytes = .ok (.request req consumed) ∧
      Authorised req := by
  obtain ⟨w, os, ran, all⟩ := commands_of_connections labServer.build {} 1 labCommands
  obtain ⟨reads, -, -, -, authorised, -⟩ := all 0
  have seen : ((run ControlWorld.step (.start labServer.build {} 1) labCommands).toOption.map fun r =>
      (received (ofConnection 0 r.2.flatten), commandsOf (ofConnection 0 r.2.flatten))) =
        some (labUpgrade ++ labRecord, [str "record on"]) := by decide +kernel
  rw [ran] at seen
  simp only [Except.toOption, Option.map_some, Option.some.injEq, Prod.mk.injEq] at seen
  obtain ⟨stream, commands⟩ := seen
  rw [stream] at reads authorised
  exact ⟨w, os, ran, reads.symm, commands, authorised (by rw [commands]; exact List.cons_ne_nil _ _)⟩

section EndOfStream

variable {S : ControlServer → Prop} {c : Client} {rs : List Reaction} {s : ControlServer} {io : ClientIo} {k : Nat}
  {results : List RecvResult}

/-- Where a call of `read_client` leaves a connection, all is explained by what was received. -/
theorem Connected.commands (h : Connected S c rs) :
    commandsOf rs = requestsOf (textsOf (itemsOf (received rs))) := by
  obtain ⟨_, _, items, drains, explained, _⟩ := h.session
  rw [itemsOf_eq drains]
  exact explained.commands

/-- The bytes that are read with the end of the stream complete no message that asks for a command, or the
connection was being closed. -/
def AsksNoMore (c : Client) (rs : List Reaction) (data : Bytes) : Prop :=
  c.closeAfterWrite ∨
    requestsOf (textsOf (itemsOf (received rs ++ data))) = requestsOf (textsOf (itemsOf (received rs)))

/-- The commands of a client whose end of stream is read together with its last bytes are those that it would have
with the end of the stream read later, exactly if these bytes ask for no more. -/
theorem eof_together_iff {build : CtlBuild} {cfg : ControlServerConfig} {nextUpdateNs : UInt64} {es : List ServerEvent}
    {w : ControlWorld} {os : List (List (Nat × Reaction))}
    (ran : run ControlWorld.step (.start build cfg nextUpdateNs) es = .ok (w, os)) {c : Client} (mem : c ∈ w.clients)
    (s : ControlServer) (io : ClientIo) (k : Nat) (results calm : List RecvResult) (eof : (recvAll results).2 = .eof)
    (again : (recvAll calm).2 = .again) (same : (recvAll calm).1 = (recvAll results).1) :
    let rs := ofConnection c.fd os.flatten
    ∃ together apart late, readClient s c io k results = .ok together ∧ readClient s c io k calm = .ok apart ∧
      readClient apart.server apart.client io (k + commandCount apart.reactions) [.eof] = .ok late ∧
      (commandsOf (rs ++ together.reactions) = commandsOf (rs ++ apart.reactions ++ late.reactions) ↔
        AsksNoMore c rs (recvAll results).1) := by
  intro rs
  have history := control_ran ran
  obtain ⟨life, living⟩ := history.client mem
  have steady : Steady fun _ => True := fun _ _ _ _ _ _ _ => trivial
  have connected := (life.mono fun _ _ => trivial).connected steady
  obtain ⟨_, together⟩ := readClient_eof s c io k results eof
  by_cases closing : c.closeAfterWrite
  · have apart := readClient_closing s c io k calm closing
    obtain ⟨_, late⟩ := readClient_eof s { c with dead := c.dead || !decide ((recvAll calm).2 = .again) } io k [.eof] rfl
    refine ⟨_, _, _, together, apart, late, ?_⟩
    simp only [List.append_nil, true_iff]
    exact .inl closing
  · have alive : ¬ (c.dead ∨ c.closeAfterWrite) := by simp [living, closing]
    obtain ⟨h, rs', apart, reactions, drains⟩ := readClient_drains s c io k calm alive again
    obtain ⟨_, late⟩ := readClient_eof h.server h.client io (k + commandCount h.reactions) [.eof] rfl
    refine ⟨_, h, _, together, apart, late, ?_⟩
    have after := (connected.handled steady trivial alive drains).commands
    have stream : received (rs ++ .received (recvAll calm).1 :: rs') = received rs ++ (recvAll results).1 := by
      have silent := received_effective (drains_effective drains)
      unfold received at silent ⊢
      rw [List.flatMap_append, List.flatMap_cons, silent, List.append_nil, same]
    rw [stream] at after
    rw [List.append_nil, List.append_nil, reactions, after, connected.commands]
    constructor
    · exact fun equal => .inr equal.symm
    · rintro (bad | equal)
      · exact absurd bad closing
      · exact equal.symm

theorem eof_together_iff_lab :
    let w : ControlWorld := { ControlWorld.start labServer.build {} 1 with clients := [{ fd := 0 }], accepted := 1 }
    run ControlWorld.step (.start labServer.build {} 1) [labAccept] = .ok (w, [[]]) ∧
      ∃ together apart late,
        readClient w.server { fd := 0 } {} 0 [.data (labUpgrade ++ labRecord), .eof] = .ok together ∧
        readClient w.server { fd := 0 } {} 0 [.data (labUpgrade ++ labRecord)] = .ok apart ∧
        readClient apart.server apart.client {} (0 + commandCount apart.reactions) [.eof] = .ok late ∧
        (commandsOf together.reactions = commandsOf (apart.reactions ++ late.reactions) ↔
          AsksNoMore { fd := 0 } [] (labUpgrade ++ labRecord)) := by
  intro w
  have ran : run ControlWorld.step (.start labServer.build {} 1) [labAccept] = .ok (w, [[]]) := rfl
  refine ⟨ran, ?_⟩
  have mem : ({ fd := 0 } : Client) ∈ w.clients := List.mem_cons_self ..
  have same : (recvAll [.data (labUpgrade ++ labRecord), .eof]).1 = labUpgrade ++ labRecord := List.append_nil _
  have whole := eof_together_iff ran mem w.server {} 0 [.data (labUpgrade ++ labRecord), .eof]
    [.data (labUpgrade ++ labRecord)] rfl rfl rfl
  rw [same] at whole
  exact whole

/-- The request to record of a client that sends it with its end of stream is dropped. -/
theorem eof_discards_request : (do
      let (w, _) ← run ControlWorld.step (.start labServer.build {} 1) [labAccept, labReceive labUpgrade]
      let c := w.clients.headD { fd := 0 }
      let together ← readClient w.server c {} 0 [.data labRecord, .eof]
      let apart ← readClient w.server c {} 0 [.data labRecord]
      let late ← readClient apart.server apart.client {} 1 [.eof]
      .ok (commandsOf together.reactions, commandsOf (apart.reactions ++ late.reactions)) : Exec (List Bytes × List Bytes))
    = .ok ([], [str "record on"]) := by
  decide +kernel

end EndOfStream

end IpcRelay.Ctl
