import IpcRelay.Ctl.Replies

/-!
# The room that a visit asks for

What a client sends decides what is appended for it: `roomFor` reads off the
state before a visit and the visit's input how many bytes go before the last
answer. Where what is pending leaves that room, each answer finds no more than
`kMaxOutputBacklog` bytes pending (`ReadCase.heeds`).
-/

namespace IpcRelay.Ctl

open WsOpcode Machine Incremental

section Spec

/-- What the input of a client is read for. -/
def Client.stage (c : Client) : Phase := if c.websocket then .frames c.message c.inMessage else .http

/-- Where the session of a client stands. -/
def Client.phase (c : Client) : Phase := if c.dead ∨ c.closeAfterWrite then .closed else c.stage

/-- How many requests and frames of a stream are handled at most, by the end of its reading: all of them, or those of a
client that is gone, whose request is still answered. -/
def Client.turns (c : Client) (stream : Bytes) : RecvEnd → Nat
  | .again => stream.length + 2
  | .eof => 0
  | .error => if c.websocket then 0 else 1

/-- Where the session of a client stands behind what a reading brings, and what is found in it. -/
def Client.finds (c : Client) (results : List RecvResult) : Phase × List Item :=
  let stream := c.input ++ (recvAll results).1
  let r := drain sessionStep (c.turns stream (recvAll results).2) c.phase stream
  (r.1, r.2.2)

/-- The size of the frame that carries a payload. -/
def frameSize (p : Bytes) : Nat := (wsEncodeFrame kText p).length

/-- The size of the reply to a message, where the command that it may ask for has an error or none. -/
def replySize (sendError : Option Bytes) (text : Bytes) : Nat :=
  match Json.parse text with
  | .ok r =>
    let req := readRequest r
    let error := if req.command ≠ [] then sendError else some req.error
    frameSize (commandResult req.id req.command error.isNone (error.getD req.error))
  | .error _ => 0

/-- The sizes of what is due for what was found, `k` commands being sent before: the response and two accounts for a
request that opens a WebSocket, a pong for a ping, a reply for a message. -/
def dueSizes (s : ControlServer) (io : ClientIo) : Nat → List Item → List Nat
  | _, [] => []
  | k, .request req :: items =>
    (if Authorised req then
      [(Reaction.upgraded (req.header (str "sec-websocket-key"))).bytes.length, frameSize s.helloJson,
        frameSize (s.statsEnvelope io.clock).2]
    else []) ++ dueSizes s io k items
  | k, .frame f :: items => (if f.opcode = kPing then [frameSize f.payload] else []) ++ dueSizes s io k items
  | k, .text text :: items =>
    replySize (io.sendError k) text :: dueSizes s io (k + (recordCommand text).toList.length) items

/-- A connection that was open is closed. -/
def closes (phase phase' : Phase) : Bool := phase.reads.isSome && phase'.reads.isNone

/-- The bytes that a visit's input has appended before its last answer, if it has any. What closes the connection is
the last. -/
def roomFor (s : ControlServer) (c : Client) (p : ClientPoll) : Option Nat :=
  match p.input with
  | none => none
  | some results =>
    let found := c.finds results
    let due := dueSizes s p.io 0 found.2
    if closes c.phase found.1 then some due.sum
    else if due = [] then none
    else some due.dropLast.sum

/-- Reactions that are queued one after the other, each with the number of bytes that are pending before it. -/
def paced (pending : Nat) : List Reaction → List (Nat × Reaction)
  | [] => []
  | r :: rs => (pending, r) :: paced (pending + r.bytes.length) rs

/-- Nothing is appended where more than `kMaxOutputBacklog` bytes are pending. -/
def Heeds (queue : List (Nat × Reaction)) : Prop := ∀ x ∈ queue, x.2.bytes ≠ [] → x.1 ≤ kMaxOutputBacklog

instance (queue : List (Nat × Reaction)) : Decidable (Heeds queue) :=
  inferInstanceAs (Decidable (∀ x ∈ queue, x.2.bytes ≠ [] → x.1 ≤ kMaxOutputBacklog))

end Spec

section Queue

variable {n F : Nat} {rs rs' : List Reaction}

theorem paced_append : paced n (rs ++ rs') = paced n rs ++ paced (n + (rs.flatMap Reaction.bytes).length) rs' := by
  induction rs generalizing n with
  | nil => rfl
  | cons r rs ih =>
    rw [List.cons_append, paced, paced, ih, List.flatMap_cons, List.length_append, Nat.add_assoc, List.cons_append]

example : (paced 3 [.frame kText [1, 2], .frame kText []]).map Prod.fst = [3, 7] := by decide +kernel

theorem Heeds.append {q q' : List (Nat × Reaction)} : Heeds (q ++ q') ↔ Heeds q ∧ Heeds q' := by
  unfold Heeds
  exact List.forall_mem_append

/-- The last reaction that is appended finds no more than the limit. -/
theorem paced_bounded (heeds : Heeds (paced n rs)) (sizes : ∀ r ∈ rs, r.bytes.length ≤ F)
    (start : n ≤ kMaxOutputBacklog + F) : n + (rs.flatMap Reaction.bytes).length ≤ kMaxOutputBacklog + F := by
  induction rs generalizing n with
  | nil => exact start
  | cons r rs ih =>
    have size := sizes r (List.mem_cons_self ..)
    have next : n + r.bytes.length ≤ kMaxOutputBacklog + F := by
      by_cases silent : r.bytes = []
      · rw [silent]
        exact start
      · exact Nat.add_le_add (heeds _ (List.mem_cons_self ..) silent) size
    have rest := ih (n := n + r.bytes.length) (fun x mem => heeds x (List.mem_cons_of_mem _ mem))
      (fun r mem => sizes r (List.mem_cons_of_mem _ mem)) next
    rw [List.flatMap_cons, List.length_append]
    omega

theorem paced_mem {x : Nat × Reaction} (mem : x ∈ paced n rs) : x.2 ∈ rs := by
  induction rs generalizing n with
  | nil => cases mem
  | cons r rs ih =>
    rcases List.mem_cons.1 mem with rfl | mem
    · exact List.mem_cons_self ..
    · exact List.mem_cons_of_mem _ (ih mem)

end Queue

section Sizes

variable {n k : Nat} {rs rs' : List Reaction} {s : ControlServer} {c : Client} {io : ClientIo} {f : WsFrame} {h : Handled}
  {items items' : List Item}

/-- The sizes of what is appended. -/
def sizesOf (rs : List Reaction) : List Nat := (rs.map fun r => r.bytes.length).filter fun size => 0 < size

theorem sizesOf_append : sizesOf (rs ++ rs') = sizesOf rs ++ sizesOf rs' := by
  unfold sizesOf
  rw [List.map_append, List.filter_append]

/-- Where all but the last fit behind what is pending, each finds no more than the limit. -/
theorem heeds_of_room (room : sizesOf rs ≠ [] → n + (sizesOf rs).dropLast.sum ≤ kMaxOutputBacklog) : Heeds (paced n rs) := by
  induction rs generalizing n with
  | nil => exact fun x mem => by cases mem
  | cons r rs ih =>
    intro x mem nonempty
    by_cases silent : r.bytes.length = 0
    · have same : sizesOf (r :: rs) = sizesOf rs := List.filter_cons_of_neg (by simp [silent])
      rw [same] at room
      rcases List.mem_cons.1 mem with rfl | mem
      · exact absurd (List.length_eq_zero_iff.1 silent) nonempty
      · rw [silent] at mem
        exact ih room x mem nonempty
    · have more : sizesOf (r :: rs) = r.bytes.length :: sizesOf rs :=
        List.filter_cons_of_pos (by simpa using Nat.pos_of_ne_zero silent)
      rw [more] at room
      have here := room (List.cons_ne_nil _ _)
      rcases List.mem_cons.1 mem with rfl | mem
      · exact Nat.le_trans (Nat.le_add_right ..) here
      · refine ih (fun others => ?_) x mem nonempty
        rw [List.dropLast_cons_of_ne_nil others, List.sum_cons] at here
        omega

theorem sizesOf_frame (opcode : UInt8) (p : Bytes) : sizesOf [.frame opcode p] = [frameSize p] :=
  List.filter_cons_of_pos (by simp [Reaction.bytes, wsEncodeFrame])

theorem sizesOf_silent {r : Reaction} (silent : r.bytes = []) : sizesOf (r :: rs) = sizesOf rs :=
  List.filter_cons_of_neg (by simp [silent])

/-- A message is answered by its reply. -/
theorem handleWsMessage_sizes {text : Bytes} (ran : handleWsMessage s c io k text = .ok h) :
    sizesOf h.reactions = [replySize (io.sendError k) text] := by
  obtain ⟨r, parsed, cases⟩ := handleWsMessage_cases s c io k text
  unfold replySize
  rw [parsed]
  simp only
  rcases cases with ⟨asks, s', frames, error, ran', _, sent⟩ | ⟨silent, ran'⟩
  · cases ran'.symm.trans ran
    rw [if_pos asks, ← show error = io.sendError k from congrArg Prod.snd sent]
    exact (sizesOf_silent rfl).trans (sizesOf_frame ..)
  · cases ran'.symm.trans ran
    rw [if_neg (not_not.2 silent)]
    exact sizesOf_frame ..

theorem dueSizes_append : dueSizes s io k (items ++ items') =
    dueSizes s io k items ++ dueSizes s io (k + (requestsOf (textsOf items)).length) items' := by
  induction items generalizing k with
  | nil => rfl
  | cons i items ih =>
    rw [List.cons_append]
    cases i with
    | request req => exact (congrArg _ ih).trans (List.append_assoc ..).symm
    | frame f => exact (congrArg _ ih).trans (List.append_assoc ..).symm
    | text text =>
      have count : (requestsOf (textsOf (.text text :: items))).length =
          (recordCommand text).toList.length + (requestsOf (textsOf items)).length := by
        unfold requestsOf textsOf
        cases found : recordCommand text <;> simp [found]
        omega
      rw [dueSizes, dueSizes, ih, count, Nat.add_assoc]
      rfl

/-- What closes a connection is one answer, behind what is due. -/
def Closing (phase phase' : Phase) (last : List Nat) : Prop := if closes phase phase' then last.length = 1 else last = []

variable {phase phase' : Phase} {last : List Nat}

theorem FrameCase.sizes (fc : FrameCase s c io k f h) (s' : ControlServer) :
    ∃ last, sizesOf h.reactions = dueSizes s' io k (.frame f :: (takeFrame c.message c.inMessage f).2.map .text) ++ last ∧
      Closing (.frames c.message c.inMessage) (takeFrame c.message c.inMessage f).1 last := by
  have message : (addPiece c f).message = (if f.opcode = kText then [] else c.message) ++ f.payload := rfl
  -- a close frame, where nothing is due
  have fails {opcode : UInt8} {p : Bytes} (other : f.opcode ≠ kPing) :
      ∃ last, sizesOf [.frame opcode p] = dueSizes s' io k [.frame f] ++ last ∧
        Closing (.frames c.message c.inMessage) .closed last :=
    ⟨[frameSize p], (sizesOf_frame opcode p).trans (by simp [dueSizes, other]), rfl⟩
  have data (data : f.opcode = kText ∨ f.opcode = kContinuation) : f.opcode ≠ kPing := by
    rcases data with d | d <;> rw [d] <;> decide
  cases fc with
  | ping ping =>
    rw [takeFrame_probe (.inl ping)]
    exact ⟨[], (sizesOf_frame ..).trans (by simp [dueSizes, ping]), rfl⟩
  | pong pong =>
    rw [takeFrame_probe (.inr pong)]
    exact ⟨[], by simp [dueSizes, pong, kPong, kPing, sizesOf], rfl⟩
  | close close =>
    rw [takeFrame_closes (.inl close)]
    exact fails (by rw [close]; decide)
  | binary binary =>
    rw [takeFrame_closes (.inr binary)]
    exact fails (by rw [binary]; decide)
  | unexpected kind bad =>
    rw [takeFrame_data kind, if_pos (.inl bad)]
    exact fails (data kind)
  | tooLarge kind _ large =>
    rw [takeFrame_data kind, if_pos (.inr large)]
    exact fails (data kind)
  | piece kind good small more =>
    rw [takeFrame_data kind, if_neg (by rw [message] at small; grind), more, ← message]
    exact ⟨[], by simp [dueSizes, data kind, sizesOf], rfl⟩
  | message kind good small fin ran =>
    rw [takeFrame_data kind, if_neg (by rw [message] at small; grind), if_pos fin, ← message]
    exact ⟨[], (handleWsMessage_sizes ran).trans (by simp [dueSizes, data kind]), rfl⟩

variable {v v' : Serving} {x : Found} {d : Handled} {input rest : Bytes}

theorem sizesOf_pos {r : Reaction} (nonempty : r.bytes ≠ []) : sizesOf [r] = [r.bytes.length] :=
  List.filter_cons_of_pos (by simpa using List.length_pos_iff.2 nonempty)

theorem httpResponse_ne (status : Nat) (type body : Bytes) (head : Bool) (extra : List (Bytes × Bytes)) :
    httpResponse status type body head extra ≠ [] := by
  simp [httpResponse, crlf]

theorem ServeCase.sizes (sc : ServeCase io v x d) (first : ¬ v.client.websocket → s = v.server) :
    ∃ last, sizesOf d.reactions = dueSizes s io v.sent (v.client.stage.take x).2 ++ last ∧
      Closing v.client.stage (v.client.stage.take x).1 last := by
  -- a response, where nothing is due
  have responds {r : Reaction} (nonempty : r.bytes ≠ []) : ∃ last, sizesOf [r] = [] ++ last ∧ Closing .http .closed last :=
    ⟨[r.bytes.length], sizesOf_pos nonempty, rfl⟩
  unfold Client.stage
  cases sc with
  | badFrame ws =>
    rw [if_pos ws]
    exact ⟨[_], sizesOf_frame .., rfl⟩
  | frame ws _ fc =>
    rw [if_pos ws]
    exact fc.sizes s
  | badRequest http =>
    rw [if_neg http]
    exact responds (httpResponse_ne _ _ _ _ _)
  | @upgrade req key http path check =>
    have auth := (checkUpgrade_iff path).1 ⟨key, check⟩
    rw [if_neg http, take_request, if_pos auth, first http, greet_reactions]
    refine ⟨[], ?_, rfl⟩
    rw [show [Reaction.upgraded key, .frame kText v.server.helloJson, .frame kText (v.server.statsEnvelope io.clock).2] =
      [.upgraded key] ++ ([.frame kText v.server.helloJson] ++ [.frame kText (v.server.statsEnvelope io.clock).2]) from rfl,
      sizesOf_append, sizesOf_append, sizesOf_frame, sizesOf_frame, sizesOf_pos (by simp [Reaction.bytes, crlf])]
    simp [dueSizes, auth, checkUpgrade_key check]
  | @api req _ http path =>
    have refused : ¬ Authorised req := fun auth => path auth.path
    rw [if_neg http, take_request, if_neg refused, show dueSizes s io v.sent [.request req] = [] by simp [dueSizes, refused]]
    exact responds (httpResponse_ne _ _ _ _ _)
  | @response req _ _ _ _ _ http refused =>
    have unauthorised : ¬ Authorised req := by
      intro auth
      obtain ⟨_, check⟩ := (checkUpgrade_iff auth.path).2 auth
      obtain ⟨_, check'⟩ := refused auth.path
      rw [check] at check'
      cases check'
    rw [if_neg http, take_request, if_neg unauthorised,
      show dueSizes s io v.sent [.request req] = [] by simp [dueSizes, unauthorised]]
    exact responds (httpResponse_ne _ _ _ _ _)

end Sizes

section Visits

variable {s : ControlServer} {c : Client} {io : ClientIo} {v v' : Serving} {x : Found} {d : Handled} {k : Nat}
  {input rest : Bytes}
  {rs : List Reaction} {items : List Item} {phase phase' : Phase} {last : List Nat}

theorem Client.At.phase_eq (stands : c.At phase) : c.phase = phase := by
  unfold Client.phase Client.stage
  cases stands with
  | http alive http _ _ => rw [if_neg alive, if_neg http]
  | frames alive ws message inMessage => rw [if_neg alive, if_pos ws, message, inMessage]
  | closed closed => rw [if_pos closed]

/-- The commands that are sent are those that are asked for. -/
theorem ServeCase.commands (sc : ServeCase io v x d) (alive : ¬ (v.client.dead ∨ v.client.closeAfterWrite))
    (stands : v.client.At phase) : commandCount d.reactions = (requestsOf (textsOf (phase.take x).2)).length := by
  obtain ⟨_, _, explained⟩ := sc.explained (S := fun _ => True) (fun _ _ _ _ _ _ _ => trivial) trivial alive stands
  rw [← explained.commands]
  unfold commandCount commandsOf
  induction d.reactions with
  | nil => rfl
  | cons r rs ih => cases r <;> simp [ih]

theorem take_later (phase : Phase) (x : Found) : (phase.take x).1 ≠ .http := by
  cases phase with
  | http =>
    cases x with
    | request req =>
      rw [take_request]
      split <;> exact Phase.noConfusion
    | _ => exact Phase.noConfusion
  | frames message inMessage =>
    cases x with
    | frame f =>
      change (takeFrame message inMessage f).1 ≠ .http
      unfold takeFrame
      simp only
      split_ifs <;> exact Phase.noConfusion
    | _ => exact Phase.noConfusion
  | closed => exact Phase.noConfusion

/-- What a stream has appended is what is due for what the session finds in it, and what closes the connection. -/
theorem drains_sizes (h : Drains (serveStep io) v input v' rest rs) (stands : v.client.At phase)
    (first : phase = .http → s = v.server) :
    ∃ phase' items last, Drains sessionStep phase input phase' rest items ∧ v'.client.At phase' ∧
      sizesOf rs = dueSizes s io v.sent items ++ last ∧ Closing phase phase' last := by
  induction h generalizing phase with
  | @more v input waits =>
    refine ⟨phase, [], [], .more (sessionStep_waits fun websocket reads => ?_), stands, rfl, ?_⟩
    · have alive : ¬ (v.client.dead ∨ v.client.closeAfterWrite) := by
        cases stands with
        | closed _ => cases reads
        | http alive _ => exact alive
        | frames alive _ => exact alive
      cases (stands.reads alive).symm.trans reads
      exact serveStep_none alive waits
    · unfold Closing closes
      cases phase <;> rfl
  | @item v v₁ v₂ b b₁ b₂ o os one _ ih =>
    obtain ⟨alive, x, d, found, rfl, rfl, sc⟩ := serveStep_cases one
    obtain ⟨_, stands', _⟩ := sc.explained (S := fun _ => True) (fun _ _ _ _ _ _ _ => trivial) trivial alive stands
    have same : v.client.stage = phase := by
      rw [← stands.phase_eq]
      exact (if_neg alive).symm
    obtain ⟨last₁, sizes₁, closing₁⟩ := sc.sizes (s := s) fun http => first (by rw [← same]; exact if_neg http)
    rw [same] at sizes₁ closing₁
    obtain ⟨phase', items, last₂, drains, stands'', sizes₂, closing₂⟩ :=
      ih stands' fun http => absurd http (take_later phase x)
    have reads := stands.reads alive
    have taken : Drains sessionStep phase b phase' b₂ ((phase.take x).2 ++ items) :=
      .item (sessionStep_cases.2 ⟨_, x, reads, found, rfl⟩) drains
    have count : (d.serving v.sent).sent = v.sent + (requestsOf (textsOf (phase.take x).2)).length := by
      rw [← sc.commands alive stands]
      rfl
    rw [count] at sizes₂
    refine ⟨phase', _, last₁ ++ last₂, taken, stands'', ?_⟩
    rw [sizesOf_append, sizes₁, sizes₂, dueSizes_append]
    unfold Closing closes at closing₁ closing₂ ⊢
    rw [reads] at closing₁ ⊢
    cases later : (phase.take x).1 with
    | http => exact absurd later (take_later phase x)
    | closed =>
      -- nothing is read behind it
      rw [later] at drains closing₁ closing₂
      obtain ⟨rfl, _, rfl⟩ := drains.functional (.more rfl)
      have unanswered : last₂ = [] := closing₂
      rw [unanswered, List.append_nil last₁]
      exact ⟨by simp [dueSizes], closing₁⟩
    | frames message inMessage =>
      rw [later] at closing₁ closing₂
      have unanswered : last₁ = [] := closing₁
      rw [unanswered, List.append_nil, List.nil_append, List.append_assoc]
      exact ⟨rfl, closing₂⟩

/-- Where what is pending leaves the room that a visit asks for, its answers heed the limit. -/
theorem heeds_of_roomFor {p : ClientPoll} {results : List RecvResult} (polled : p.input = some results)
    (room : ∀ n ∈ roomFor s c p, c.output.length + n ≤ kMaxOutputBacklog)
    (sizes : sizesOf rs = dueSizes s p.io 0 (c.finds results).2 ++ last) (closing : Closing c.phase (c.finds results).1 last) :
    Heeds (paced c.output.length rs) := by
  refine heeds_of_room fun answers => ?_
  unfold roomFor at room
  rw [polled] at room
  simp only at room
  rw [sizes] at answers ⊢
  unfold Closing at closing
  split at closing
  next ends =>
    obtain ⟨z, rfl⟩ := List.length_eq_one_iff.1 closing
    rw [if_pos ends] at room
    rw [List.dropLast_concat]
    exact room _ rfl
  next opened =>
    rw [closing, List.append_nil] at answers ⊢
    rw [if_neg opened, if_neg answers] at room
    exact room _ rfl

/-- The answers of a visit heed the limit, where it has the room that it asks for. -/
theorem ReadCase.heeds {p : ClientPoll} {results : List RecvResult} (rc : ReadCase s c p.io 0 results d)
    (polled : p.input = some results) (living : ¬ c.dead) (stands : c.At c.phase)
    (room : ∀ n ∈ roomFor s c p, c.output.length + n ≤ kMaxOutputBacklog) : Heeds (paced c.output.length d.reactions) := by
  cases rc with
  | closing _ => exact fun x mem => by cases mem
  | gone _ => exact fun x mem => by cases mem
  | @last x d rest opened http ending found sc =>
    have phase : c.phase = .http := (if_neg (by simp [living, opened])).trans (if_neg http)
    have finds : c.finds results = Phase.http.take x := by
      have step : sessionStep .http (c.input ++ (recvAll results).1) =
          some ((Phase.http.take x).1, rest, (Phase.http.take x).2) := sessionStep_cases.2 ⟨false, x, rfl, found, rfl⟩
      unfold Client.finds
      simp only [phase, ending, Client.turns, if_neg http, drain, step, List.append_nil]
    obtain ⟨last, sizes, closing⟩ := sc.sizes (s := s) fun _ => rfl
    have stage : Client.stage { c with input := [], dead := true } = .http := if_neg http
    rw [stage, ← finds] at sizes closing
    exact heeds_of_roomFor polled room sizes (by rw [phase]; exact closing)
  | handled alive ending reactions drains =>
    have emptied : (c.withInput []).At c.phase := stands.congr rfl rfl rfl rfl rfl
    obtain ⟨phase', items, last, found, _, sizes, closing⟩ := drains_sizes drains emptied fun _ => (rfl : s = s)
    have finds : c.finds results = (phase', items) := by
      have all := drain_drains sessionStep_progresses _ c.phase (c.input ++ (recvAll results).1) le_rfl
      obtain ⟨phases, _, same⟩ := all.functional found
      unfold Client.finds
      simp only [ending, Client.turns, phases, same]
    rw [reactions]
    rw [← show (c.finds results).1 = phase' by rw [finds]] at closing
    refine heeds_of_roomFor polled room ?_ closing
    rw [finds]
    exact (sizesOf_silent rfl).trans sizes

end Visits

end IpcRelay.Ctl
