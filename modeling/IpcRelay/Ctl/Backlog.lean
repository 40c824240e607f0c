import IpcRelay.Ctl.Room

/-!
# What is pending for a slow client

An update skips a client with more than `kMaxOutputBacklog` bytes pending; the
answers to what a client sends do not look. What is pending for a WebSocket
client is bounded in a run where, before each visit, it leaves the room that the
visit asks for (`backlog_bounded`); a client that sends pings and reads nothing
has any number of pongs queued (`waiting_pings`).
-/

namespace IpcRelay.Ctl

open WsOpcode Machine Incremental

/-- What is queued while the polled clients are served. -/
def served (poll : Nat → ClientPoll) : ControlServer → List Client → List (Nat × Reaction)
  | _, [] => []
  | s, c :: cs =>
    match serveClient s c (poll c.fd) with
    | .ok h => paced c.output.length h.reactions ++ served poll h.server cs
    | .error _ => []

/-- What is pending for the polled clients before they are visited, with the room that the visit asks for. -/
def visitDemands (poll : Nat → ClientPoll) : ControlServer → List Client → List (Nat × Nat)
  | _, [] => []
  | s, c :: cs =>
    ((roomFor s c (poll c.fd)).map fun room => (c.output.length, room)).toList ++
      match serveClient s c (poll c.fd) with
      | .ok h => visitDemands poll h.server cs
      | .error _ => []

/-- What an event queues for the clients, apart from the updates. -/
def ControlWorld.answers (w : ControlWorld) (e : ServerEvent) : List (Nat × Reaction) :=
  if !w.running then []
  else
    match e with
    | .shutdown => (w.clients.filter takesGoingAway).map fun c => (c.output.length, goingAway)
    | .round r =>
      match r.poll with
      | .ready p =>
        match w.afterStats p with
        | .ok (s, clients, _) => served p.client s clients
        | .error _ => []
      | _ => []

/-- What is pending for clients before an event has something appended for them, with the room that it asks for. -/
def ControlWorld.demands (w : ControlWorld) (e : ServerEvent) : List (Nat × Nat) :=
  if !w.running then []
  else
    match e with
    | .shutdown => (w.clients.filter takesGoingAway).map fun c => (c.output.length, 0)
    | .round r =>
      match r.poll with
      | .ready p =>
        match w.afterStats p with
        | .ok (s, clients, _) => visitDemands p.client s clients
        | .error _ => []
      | _ => []

/-- What is pending leaves the room that is asked for. -/
def HasRoom (demands : List (Nat × Nat)) : Prop := ∀ d ∈ demands, d.1 + d.2 ≤ kMaxOutputBacklog

instance (demands : List (Nat × Nat)) : Decidable (HasRoom demands) :=
  inferInstanceAs (Decidable (∀ d ∈ demands, d.1 + d.2 ≤ kMaxOutputBacklog))

section Bound

/-- No frame is longer than `F`. -/
def Small (F : Nat) (rs : List Reaction) : Prop := ∀ opcode p, .frame opcode p ∈ rs → (Reaction.frame opcode p).bytes.length ≤ F

/-- What is pending for a WebSocket client exceeds the limit by one frame at most. -/
def Client.Bounded (F : Nat) (c : Client) : Prop := c.websocket → c.output.length ≤ kMaxOutputBacklog + F

variable {F : Nat} {s : ControlServer} {c c' : Client} {io : ClientIo} {k : Nat} {v v' : Serving} {x : Found} {d h : Handled}
  {rs rs' : List Reaction}

theorem Small.append : Small F (rs ++ rs') ↔ Small F rs ∧ Small F rs' := by
  constructor
  · exact fun h => ⟨fun opcode p mem => h opcode p (List.mem_append_left _ mem),
      fun opcode p mem => h opcode p (List.mem_append_right _ mem)⟩
  · rintro ⟨h, h'⟩ opcode p mem
    rcases List.mem_append.1 mem with mem | mem
    · exact h opcode p mem
    · exact h' opcode p mem

/-- A frame is answered by a frame, or by none. -/
theorem FrameCase.frames {f : WsFrame} (fc : FrameCase s c io k f h) :
    ∀ r ∈ h.reactions, (∃ opcode p, r = .frame opcode p) ∨ r.bytes = [] := by
  have one {opcode : UInt8} {p : Bytes} :
      ∀ r ∈ [Reaction.frame opcode p], (∃ opcode p, r = .frame opcode p) ∨ r.bytes = [] :=
    fun r mem => .inl ⟨_, _, List.mem_singleton.1 mem⟩
  cases fc with
  | pong _ => exact fun r mem => by cases mem
  | piece => exact fun r mem => by cases mem
  | message _ _ _ _ ran =>
    obtain ⟨r, _, cases⟩ := handleWsMessage_cases s (addPiece c f) io k (addPiece c f).message
    rcases cases with ⟨_, _, _, _, ran', _⟩ | ⟨_, ran'⟩
    · cases ran'.symm.trans ran
      intro r mem
      rcases List.mem_cons.1 mem with rfl | mem
      · exact .inr rfl
      · exact one r mem
    · cases ran'.symm.trans ran
      exact one
  | _ => exact one

theorem Small.sizes (small : Small F rs) (frames : ∀ r ∈ rs, (∃ opcode p, r = .frame opcode p) ∨ r.bytes = []) :
    ∀ r ∈ rs, r.bytes.length ≤ F := by
  intro r mem
  rcases frames r mem with ⟨opcode, p, rfl⟩ | silent
  · exact small opcode p mem
  · rw [silent]
    exact Nat.zero_le _

/-- Handling what is found keeps the bound, if the answer heeds the limit. -/
theorem ServeCase.bounded (sc : ServeCase io v x d) (heeds : Heeds (paced v.client.output.length d.reactions))
    (small : Small F d.reactions) (bounded : v.client.Bounded F) : d.client.Bounded F := by
  intro ws
  rw [sc.output, List.length_append]
  cases sc with
  | badFrame open_ => exact paced_bounded heeds (small.sizes fun r mem => .inl ⟨_, _, List.mem_singleton.1 mem⟩) (bounded open_)
  | frame open_ _ fc => exact paced_bounded heeds (small.sizes fc.frames) (bounded open_)
  | badRequest http => exact absurd ws http
  | api http => exact absurd ws http
  | response http => exact absurd ws http
  | @upgrade _ key =>
    -- the account of the server heeds the limit, behind the response
    have first : v.client.output.length + (Reaction.upgraded key).bytes.length ≤ kMaxOutputBacklog :=
      heeds (_, .frame kText v.server.helloJson) (by simp [greet, wsSend, Handled.after, paced])
        (by simp [Reaction.bytes, wsEncodeFrame])
    have split : paced v.client.output.length (greet v.server v.client io key).reactions =
        (v.client.output.length, .upgraded key) :: paced (v.client.output.length + (Reaction.upgraded key).bytes.length)
          [.frame kText v.server.helloJson, .frame kText (v.server.statsEnvelope io.clock).2] := rfl
    rw [split] at heeds
    have rest := paced_bounded (F := F) (fun x mem => heeds x (List.mem_cons_of_mem _ mem)) ?_ (Nat.le_add_right_of_le first)
    · rw [Nat.add_assoc, ← List.length_append] at rest
      exact rest
    · intro r mem
      obtain ⟨p, rfl⟩ : ∃ p, r = .frame kText p := by
        simp only [List.mem_cons, List.not_mem_nil, or_false] at mem
        rcases mem with rfl | rfl <;> exact ⟨_, rfl⟩
      exact small kText p (List.mem_cons_of_mem _ mem)

theorem drains_bounded {input rest : Bytes} (drains : Drains (serveStep io) v input v' rest rs)
    (heeds : Heeds (paced v.client.output.length rs)) (small : Small F rs) (bounded : v.client.Bounded F) :
    v'.client.Bounded F := by
  induction drains with
  | more _ => exact bounded
  | item one _ ih =>
    obtain ⟨_, x, d, _, rfl, rfl, sc⟩ := serveStep_cases one
    rw [paced_append, Heeds.append, ← List.length_append, ← sc.output] at heeds
    rw [Small.append] at small
    exact ih heeds.2 small.2 (sc.bounded heeds.1 small.1 bounded)

theorem ReadCase.bounded {results : List RecvResult} (rc : ReadCase s c io k results d)
    (heeds : Heeds (paced c.output.length d.reactions)) (small : Small F d.reactions) (bounded : c.Bounded F) :
    d.client.Bounded F := by
  cases rc with
  | closing _ => exact bounded
  | gone _ => exact bounded
  | last _ _ _ _ sc => exact sc.bounded heeds small bounded
  | handled _ _ reactions drains =>
    rw [reactions] at heeds small
    refine drains_bounded drains (fun x mem => heeds x (List.mem_cons_of_mem _ mem)) ?_ bounded
    exact fun opcode p mem => small opcode p (List.mem_cons_of_mem _ mem)

theorem Client.Written.bounded (w : c.Written c') (bounded : c.Bounded F) : c'.Bounded F := by
  intro ws
  rw [w.websocket] at ws
  exact Nat.le_trans w.output.length_le (bounded ws)

end Bound

section Rounds

variable {F : Nat} {s s' : ControlServer} {cs cs' : List Client} {log log' : List (Nat × Reaction)} {w w' : ControlWorld}

/-- No frame that is logged is longer than `F`. -/
def SmallLog (F : Nat) (log : List (Nat × Reaction)) : Prop :=
  ∀ fd opcode p, (fd, .frame opcode p) ∈ log → (Reaction.frame opcode p).bytes.length ≤ F

theorem SmallLog.append : SmallLog F (log ++ log') ↔ SmallLog F log ∧ SmallLog F log' := by
  constructor
  · exact fun h => ⟨fun fd opcode p mem => h fd opcode p (List.mem_append_left _ mem),
      fun fd opcode p mem => h fd opcode p (List.mem_append_right _ mem)⟩
  · rintro ⟨h, h'⟩ fd opcode p mem
    rcases List.mem_append.1 mem with mem | mem
    · exact h fd opcode p mem
    · exact h' fd opcode p mem

theorem SmallLog.label {fd : Nat} {rs : List Reaction} (h : SmallLog F (label fd rs)) : Small F rs :=
  fun opcode p mem => h fd opcode p (List.mem_map_of_mem mem)

/-- An update looks at what is pending. -/
theorem broadcast_bounded {clock : Clock} (cast : broadcastStats s cs clock = (s', cs', log)) (small : SmallLog F log)
    (bounded : ∀ c ∈ cs, c.Bounded F) : ∀ c ∈ cs', c.Bounded F := by
  rcases broadcast_cases cast with ⟨rfl, rfl⟩ | ⟨text, rfl, rfl⟩
  · exact bounded
  · intro c' mem
    obtain ⟨c, there, rfl⟩ := List.mem_map.1 mem
    by_cases takes : takesUpdate c
    · rw [if_pos takes]
      intro _
      have room : c.output.length ≤ kMaxOutputBacklog := by
        unfold takesUpdate at takes
        simp only [Bool.and_eq_true, decide_eq_true_eq] at takes
        exact takes.2
      have size := small c.fd kText text (List.mem_flatMap.2 ⟨c, there, by simp [takes, label]⟩)
      rw [Client.emit, List.length_append]
      exact Nat.add_le_add room size
    · rw [if_neg takes]
      exact bounded c there

theorem serveClients_bounded {poll : Nat → ClientPoll} (ran : serveClients poll s cs = .ok (s', cs', log))
    (living : ∀ c ∈ cs, ¬ c.dead) (heeds : Heeds (served poll s cs)) (small : SmallLog F log)
    (bounded : ∀ c ∈ cs, c.Bounded F) : ∀ c ∈ cs', c.Bounded F := by
  induction cs generalizing s cs' log with
  | nil =>
    cases ran
    exact fun c mem => by cases mem
  | cons c cs ih =>
    obtain ⟨h, d, one, written, reactions, server, what⟩ := serveClient_cases s c (poll c.fd) (living c (List.mem_cons_self ..))
    rw [served, one] at heeds
    simp only [Heeds.append] at heeds
    unfold serveClients at ran
    rw [one, ok_bind] at ran
    obtain ⟨⟨s₁, cs₁, log₁⟩, rest, ran⟩ := bind_ok.1 ran
    cases ran
    rw [SmallLog.append] at small
    have here : d.client.Bounded F := by
      have first := bounded c (List.mem_cons_self ..)
      rcases what with rfl | ⟨results, _, rc⟩
      · exact first
      · rw [reactions] at heeds small
        exact rc.bounded heeds.1 small.1.label first
    intro c' mem
    rcases List.mem_cons.1 mem with rfl | mem
    · exact written.bounded here
    · exact ih rest (fun c mem => living c (List.mem_cons_of_mem _ mem)) heeds.2 small.2
        (fun c mem => bounded c (List.mem_cons_of_mem _ mem)) c' mem

/-- A connection that comes in is no WebSocket yet. -/
theorem acceptClients_bounded (n accepted : Nat) (bounded : ∀ c ∈ cs, c.Bounded F) :
    ∀ c ∈ (acceptClients s n cs accepted).1, c.Bounded F := by
  induction n generalizing cs accepted with
  | zero => exact bounded
  | succ n ih =>
    refine ih _ fun c mem => ?_
    rcases List.mem_append.1 mem with mem | mem
    · exact bounded c mem
    · rw [List.mem_singleton.1 mem]
      intro ws
      split at ws <;> cases ws

theorem endRound_bounded (r : Round) (small : SmallLog F (endRound w r).2) (bounded : ∀ c ∈ w.clients, c.Bounded F) :
    ∀ c ∈ (endRound w r).1.clients, ¬ c.dead ∧ c.Bounded F := by
  obtain ⟨s, cs, rs, ends, cast⟩ := endRound_cases w r
  rw [ends] at small ⊢
  have bounded' : ∀ c ∈ cs, c.Bounded F := by
    rcases cast with ⟨s₁, cast, -⟩ | ⟨-, rfl, -⟩
    · exact broadcast_bounded cast small bounded
    · exact bounded
  intro c' mem
  simp only [List.mem_filter, Bool.not_eq_true'] at mem
  obtain ⟨flushed, lives⟩ := mem
  obtain ⟨c, there, rfl⟩ := List.mem_map.1 flushed
  exact ⟨by simp [lives], (flush_written c _).bounded (bounded' c there)⟩

/-- An event whose answers heed the limit keeps the bound. -/
theorem step_bounded {e : ServerEvent} (one : w.step e = .ok (w', log)) (heeds : Heeds (w.answers e)) (small : SmallLog F log)
    (h : ∀ c ∈ w.clients, ¬ c.dead ∧ c.Bounded F) : ∀ c ∈ w'.clients, ¬ c.dead ∧ c.Bounded F := by
  have living : ∀ c ∈ w.clients, ¬ c.dead := fun c mem => (h c mem).1
  have bounded : ∀ c ∈ w.clients, c.Bounded F := fun c mem => (h c mem).2
  unfold ControlWorld.step at one
  unfold ControlWorld.answers at heeds
  split at one
  · cases one
    exact h
  next running =>
  rw [if_neg running] at heeds
  cases e with
  | shutdown =>
    cases one
    exact fun c mem => by cases mem
  | round r =>
    obtain ⟨⟨w₁, goesOn, rs⟩, polled, one⟩ := bind_ok.1 one
    cases one
    have after : ∀ c ∈ w₁.clients, ¬ c.dead ∧ c.Bounded F := by
      unfold pollOnce at polled
      cases poll : r.poll with
      | interrupted =>
        rw [poll] at polled
        cases polled
        exact h
      | error =>
        rw [poll] at polled
        cases polled
        exact h
      | timeout =>
        rw [poll] at polled
        cases polled
        exact endRound_bounded r small bounded
      | ready p =>
        simp only [poll] at polled heeds
        obtain ⟨⟨w₂, rs₂⟩, ready, polled⟩ := bind_ok.1 polled
        cases polled
        rw [SmallLog.append] at small
        refine endRound_bounded r small.2 ?_
        rw [serveReady_eq] at ready
        obtain ⟨⟨s₁, cs₁, log₁⟩, stats, ready⟩ := bind_ok.1 ready
        simp only [stats] at heeds
        obtain ⟨⟨s₂, cs₂, log₂⟩, clients, ready⟩ := bind_ok.1 ready
        cases ready
        rw [SmallLog.append, SmallLog.append] at small
        have first : (∀ c ∈ cs₁, ¬ c.dead) ∧ ∀ c ∈ cs₁, c.Bounded F := by
          rcases afterStats_cases stats with ⟨rfl, rfl⟩ | ⟨s₀, clock, cast⟩
          · exact ⟨living, bounded⟩
          · exact ⟨broadcast_keeps (fun _ _ lives => lives) cast living, broadcast_bounded cast small.1.1.1 bounded⟩
        exact acceptClients_bounded _ _ (serveClients_bounded clients first.1 heeds small.1.1.2 first.2)
    intro c mem
    split at mem
    · exact after c mem
    · cases mem

theorem served_logged {poll : Nat → ClientPoll} (ran : serveClients poll s cs = .ok (s', cs', log)) :
    ∀ x ∈ served poll s cs, ∃ fd, (fd, x.2) ∈ log := by
  induction cs generalizing s cs' log with
  | nil => exact fun x mem => by cases mem
  | cons c cs ih =>
    unfold serveClients at ran
    obtain ⟨h, one, ran⟩ := bind_ok.1 ran
    obtain ⟨⟨s₁, cs₁, log₁⟩, rest, ran⟩ := bind_ok.1 ran
    cases ran
    intro x mem
    simp only [served, one] at mem
    rcases List.mem_append.1 mem with mem | mem
    · exact ⟨c.fd, List.mem_append_left _ (List.mem_map_of_mem (paced_mem mem))⟩
    · obtain ⟨fd, there⟩ := ih rest x mem
      exact ⟨fd, List.mem_append_right _ there⟩

/-- Every answer is one of the things that are done. -/
theorem answers_logged {e : ServerEvent} (one : w.step e = .ok (w', log)) : ∀ x ∈ w.answers e, ∃ fd, (fd, x.2) ∈ log := by
  intro x mem
  unfold ControlWorld.step at one
  unfold ControlWorld.answers at mem
  split at one
  next stopped =>
    rw [if_pos stopped] at mem
    cases mem
  next running =>
    rw [if_neg running] at mem
    cases e with
    | shutdown =>
      cases one
      obtain ⟨c, there, rfl⟩ := List.mem_map.1 mem
      obtain ⟨there, takes⟩ := List.mem_filter.1 there
      exact ⟨c.fd, List.mem_flatMap.2 ⟨c, there, by simp [takes, label]⟩⟩
    | round r =>
      obtain ⟨⟨w₁, goesOn, rs⟩, polled, one⟩ := bind_ok.1 one
      cases one
      simp only at mem
      split at mem
      next p poll =>
        simp only [pollOnce, poll] at polled
        obtain ⟨⟨w₂, rs₂⟩, ready, polled⟩ := bind_ok.1 polled
        cases polled
        rw [serveReady_eq] at ready
        obtain ⟨⟨s₁, cs₁, log₁⟩, stats, ready⟩ := bind_ok.1 ready
        obtain ⟨⟨s₂, cs₂, log₂⟩, clients, ready⟩ := bind_ok.1 ready
        cases ready
        simp only [stats] at mem
        obtain ⟨fd, there⟩ := served_logged clients x mem
        exact ⟨fd, List.mem_append_left _ (List.mem_append_left _ (List.mem_append_right _ there))⟩
      next => cases mem

end Rounds

section Room

variable {s s' : ControlServer} {cs cs' : List Client} {log : List (Nat × Reaction)}

/-- A client that is alive, whose session stands where its state says. -/
def Client.Follows (c : Client) : Prop := ¬ c.dead ∧ c.At c.phase

theorem Client.Follows.emit {c : Client} (follows : c.Follows) (r : Reaction) : (c.emit r).Follows := by
  have stands : (c.emit r).At c.phase := follows.2.congr rfl rfl rfl rfl rfl
  refine ⟨follows.1, ?_⟩
  rw [stands.phase_eq]
  exact stands

/-- Whatever happened before, the clients follow their sessions. -/
theorem clients_follow {build : CtlBuild} {cfg : ControlServerConfig} {nextUpdateNs : UInt64} {es : List ServerEvent}
    {w : ControlWorld} {os : List (List (Nat × Reaction))}
    (ran : run ControlWorld.step (.start build cfg nextUpdateNs) es = .ok (w, os)) : ∀ c ∈ w.clients, c.Follows := by
  intro c mem
  have history := control_ran ran
  obtain ⟨life, living⟩ := history.client mem
  obtain ⟨phase, _, _, _, _, stands⟩ := (life.connected (keeps_steady build cfg fun _ => True)).session
  refine ⟨living, ?_⟩
  by_cases closing : c.closeAfterWrite
  · have closed : c.At .closed := .closed (.inr closing)
    rw [closed.phase_eq]
    exact closed
  · obtain ⟨stands, _⟩ := stands (by simp [living, closing])
    rw [stands.phase_eq]
    exact stands

/-- Where each visit has the room that it asks for, what is queued heeds the limit. -/
theorem served_heeds {poll : Nat → ClientPoll} (follow : ∀ c ∈ cs, c.Follows) (room : HasRoom (visitDemands poll s cs)) :
    Heeds (served poll s cs) := by
  induction cs generalizing s with
  | nil => exact fun x mem => by cases mem
  | cons c cs ih =>
    obtain ⟨living, stands⟩ := follow c (List.mem_cons_self ..)
    obtain ⟨h, d, one, _, reactions, _, what⟩ := serveClient_cases s c (poll c.fd) living
    unfold visitDemands at room
    unfold served
    rw [one] at room ⊢
    simp only at room ⊢
    rw [Heeds.append]
    constructor
    · rw [reactions]
      rcases what with rfl | ⟨results, polled, rc⟩
      · exact fun x mem => by cases mem
      · refine rc.heeds polled living stands fun n asked => room (c.output.length, n) ?_
        exact List.mem_append_left _ (by simp [Option.mem_def.1 asked])
    · exact ih (fun c mem => follow c (List.mem_cons_of_mem _ mem)) fun d mem => room d (List.mem_append_right _ mem)

/-- The answers of an event heed the limit, where the room that it asks for is there. -/
theorem answers_heed {w : ControlWorld} {e : ServerEvent} (follow : ∀ c ∈ w.clients, c.Follows) (room : HasRoom (w.demands e)) :
    Heeds (w.answers e) := by
  unfold ControlWorld.demands at room
  unfold ControlWorld.answers
  split
  · exact fun x mem => by cases mem
  next running =>
    rw [if_neg running] at room
    cases e with
    | shutdown =>
      intro x mem _
      obtain ⟨c, there, rfl⟩ := List.mem_map.1 mem
      exact room (c.output.length, 0) (List.mem_map_of_mem there)
    | round r =>
      simp only at room ⊢
      split
      next p poll =>
        rw [poll] at room
        simp only at room
        split
        next s cs log stats =>
          rw [stats] at room
          refine served_heeds ?_ room
          rcases afterStats_cases stats with ⟨rfl, rfl⟩ | ⟨s₀, clock, cast⟩
          · exact follow
          · exact broadcast_keeps (fun _ _ follows => follows.emit _) cast follow
        next => exact fun x mem => by cases mem
      next => exact fun x mem => by cases mem

/-- Where the room that a run asks for is there, its answers heed the limit. -/
theorem run_heeds {build : CtlBuild} {cfg : ControlServerConfig} {nextUpdateNs : UInt64} {es : List ServerEvent}
    (room : HasRoom (collect ControlWorld.step (fun w e _ => w.demands e) (.start build cfg nextUpdateNs) es)) :
    Heeds (collect ControlWorld.step (fun w e _ => w.answers e) (.start build cfg nextUpdateNs) es) := by
  induction es using List.reverseRecOn with
  | nil => exact fun x mem => by cases mem
  | append_singleton es e ih =>
    obtain ⟨w, os, ran⟩ := control_total build cfg nextUpdateNs (es ++ [e])
    obtain ⟨m, os₁, log, before, one, rfl⟩ := run_snoc.1 ran
    rw [collect_snoc before one] at room ⊢
    rw [Heeds.append]
    exact ⟨ih fun d mem => room d (List.mem_append_left _ mem),
      answers_heed (clients_follow before) fun d mem => room d (List.mem_append_right _ mem)⟩

end Room

section Runs

/-- In every run in which each visit finds the room that it asks for, and the shutdown finds no more pending than the
limit, what is pending for a WebSocket client exceeds it by one frame at most, also behind each of the answers. -/
theorem backlog_bounded (build : CtlBuild) (cfg : ControlServerConfig) (nextUpdateNs : UInt64) (es : List ServerEvent) :
    let answers := collect ControlWorld.step (fun w e _ => w.answers e) (.start build cfg nextUpdateNs) es
    ∃ w os, run ControlWorld.step (.start build cfg nextUpdateNs) es = .ok (w, os) ∧
      ∀ F, HasRoom (collect ControlWorld.step (fun w e _ => w.demands e) (.start build cfg nextUpdateNs) es) →
        SmallLog F os.flatten → (∀ c ∈ w.clients, c.Bounded F) ∧
          ∀ x ∈ answers, ∀ opcode p, x.2 = .frame opcode p → x.1 + x.2.bytes.length ≤ kMaxOutputBacklog + F := by
  obtain ⟨w, os, ran⟩ := control_total build cfg nextUpdateNs es
  refine ⟨w, os, ran, fun F room small => ?_⟩
  have heeds := run_heeds room
  clear room
  suffices both : (∀ c ∈ w.clients, ¬ c.dead ∧ c.Bounded F) ∧
      ∀ x ∈ collect ControlWorld.step (fun w e _ => w.answers e) (.start build cfg nextUpdateNs) es,
        ∃ fd, (fd, x.2) ∈ os.flatten by
    refine ⟨fun c mem => (both.1 c mem).2, fun x mem opcode p framed => ?_⟩
    obtain ⟨fd, there⟩ := both.2 x mem
    have room : x.1 ≤ kMaxOutputBacklog := heeds x mem (by simp [framed, Reaction.bytes, wsEncodeFrame])
    rw [framed] at there ⊢
    exact Nat.add_le_add room (small fd opcode p there)
  induction es using List.reverseRecOn generalizing w os with
  | nil =>
    cases ran
    exact ⟨fun c mem => (by cases mem), fun x mem => (by cases mem)⟩
  | append_singleton es e ih =>
    obtain ⟨m, os₁, log, before, one, rfl⟩ := run_snoc.1 ran
    rw [collect_snoc before one, Heeds.append] at heeds
    rw [List.flatten_append, List.flatten_singleton, SmallLog.append] at small
    obtain ⟨clients, logged⟩ := ih m os₁ before small.1 heeds.1
    refine ⟨step_bounded one heeds.2 small.2 clients, fun x mem => ?_⟩
    rw [List.flatten_append, List.flatten_singleton]
    rw [collect_snoc before one] at mem
    rcases List.mem_append.1 mem with mem | mem
    · obtain ⟨fd, there⟩ := logged x mem
      exact ⟨fd, List.mem_append_left _ there⟩
    · obtain ⟨fd, there⟩ := answers_logged one x mem
      exact ⟨fd, List.mem_append_right _ there⟩

/-- `SmallLog`, as a check. -/
def isSmall (F : Nat) : Nat × Reaction → Bool
  | (_, .frame opcode p) => decide ((Reaction.frame opcode p).bytes.length ≤ F)
  | _ => true

theorem smallLog_of_check {F : Nat} {log : List (Nat × Reaction)} (h : log.all (isSmall F) = true) : SmallLog F log := by
  intro fd opcode p mem
  have one := List.all_eq_true.1 h _ mem
  simpa only [isSmall, decide_eq_true_eq] using one

theorem backlog_bounded_lab : ∃ w os, run ControlWorld.step (.start labServer.build {} 1) (labTalk "1") = .ok (w, os) ∧
    ∀ c ∈ w.clients, c.Bounded 400 := by
  obtain ⟨w, os, ran, all⟩ := backlog_bounded labServer.build {} 1 (labTalk "1")
  have room : HasRoom (collect ControlWorld.step (fun w e _ => w.demands e) (.start labServer.build {} 1) (labTalk "1")) := by
    decide +kernel
  have small : ((run ControlWorld.step (.start labServer.build {} 1) (labTalk "1")).toOption.any fun r =>
      r.2.flatten.all (isSmall 400)) = true := by
    decide +kernel
  rw [ran] at small
  exact ⟨w, os, ran, (all 400 room (smallLog_of_check small)).1⟩

/-- A ping that carries nothing. -/
def labPing : Bytes := labFrame kPing []

/-- The server with one open WebSocket that is never written to. -/
def waiting (s : ControlServer) (output : Bytes) : ControlWorld :=
  { server := s, clients := [{ fd := 0, websocket := true, output := output }], accepted := 1 }

def pong : Reaction := .frame kPong []

theorem serve_ping (s : ControlServer) (output : Bytes) : serveClient s { fd := 0, websocket := true, output := output }
    { input := some [.data labPing] } = .ok ⟨s, { fd := 0, websocket := true, output := output ++ [0x8A, 0] },
      [.received labPing, pong]⟩ := by rfl

theorem waiting_ping {s : ControlServer} (early : ¬ s.nextUpdateNs ≤ 0) (b : UInt8) (output : Bytes) :
    (waiting s (b :: output)).step (labReceive labPing) =
      .ok (waiting s (b :: (output ++ [0x8A, 0])), label 0 [.received labPing, pong]) := by
  have ready : serveReady (waiting s (b :: output)) { client := fun _ => { input := some [.data labPing] } } =
      .ok (waiting s (b :: (output ++ [0x8A, 0])), label 0 [.received labPing, pong]) := by
    unfold serveReady
    simp only [waiting, serveClients, serve_ping, ok_bind]
    rfl
  obtain ⟨round, shape⟩ : ∃ round : Round,
      round = { poll := .ready { client := fun _ => { input := some [.data labPing] } } } := ⟨_, rfl⟩
  have ends : endRound (waiting s (b :: (output ++ [0x8A, 0]))) round = (waiting s (b :: (output ++ [0x8A, 0])), []) := by
    have before : ¬ (waiting s (b :: (output ++ [0x8A, 0]))).server.nextUpdateNs ≤ round.clock.monotonicNs := by
      rw [shape]
      exact early
    unfold endRound
    rw [if_neg before, shape]
    rfl
  unfold ControlWorld.step labReceive pollOnce
  rw [← shape]
  have polled : round.poll = .ready { client := fun _ => { input := some [.data labPing] } } := by rw [shape]
  simp only [polled, ready, ends, ok_bind]
  rfl

/-- Each ping leaves a pong behind. -/
theorem waiting_pings {s : ControlServer} (early : ¬ s.nextUpdateNs ≤ 0) (n : Nat) (b : UInt8) (output : Bytes) :
    ∃ output', run ControlWorld.step (waiting s (b :: output)) (List.replicate n (labReceive labPing)) =
      .ok (waiting s (b :: output'), List.replicate n (label 0 [.received labPing, pong])) ∧
        output'.length = output.length + 2 * n := by
  induction n generalizing output with
  | zero => exact ⟨output, rfl, rfl⟩
  | succ n ih =>
    obtain ⟨output', ran, length⟩ := ih (output ++ [0x8A, 0])
    refine ⟨output', run_cons.2 ⟨_, _, _, waiting_ping early b output, ran, rfl⟩, ?_⟩
    rw [length, List.length_append]
    simp only [List.length_cons, List.length_nil]
    omega

/-- A client of the example that has some bytes pending, before the first update is due. -/
def isWaiting (w : ControlWorld) : Bool :=
  w.running && w.accepted == 1 && !decide (w.server.nextUpdateNs ≤ 0) &&
    match w.clients with
    | [c] => decide (c = { fd := 0, websocket := true, output := c.output } ∧ c.output ≠ [])
    | _ => false

theorem waiting_of_check {w : ControlWorld} (h : isWaiting w = true) :
    ∃ s b output, w = waiting s (b :: output) ∧ ¬ s.nextUpdateNs ≤ 0 := by
  obtain ⟨s, clients, accepted, running⟩ := w
  unfold isWaiting at h
  simp only [Bool.and_eq_true, beq_iff_eq, Bool.not_eq_true', decide_eq_false_iff_not] at h
  obtain ⟨⟨⟨rfl, rfl⟩, early⟩, h⟩ := h
  rcases clients with _ | ⟨c, _ | ⟨_, _⟩⟩
  · cases h
  · simp only [decide_eq_true_eq] at h
    obtain ⟨same, nonempty⟩ := h
    obtain ⟨b, output, out⟩ := List.exists_cons_of_ne_nil nonempty
    rw [out] at same
    exact ⟨s, b, output, by rw [same]; rfl, early⟩
  · cases h

/-- It is false without the condition: a client that sends pings and reads nothing. -/
theorem backlog_overrun : ¬ ∀ (build : CtlBuild) (cfg : ControlServerConfig) (nextUpdateNs : UInt64) (es : List ServerEvent)
    (w : ControlWorld) (os : List (List (Nat × Reaction))) (F : Nat),
    run ControlWorld.step (.start build cfg nextUpdateNs) es = .ok (w, os) → SmallLog F os.flatten →
      ∀ c ∈ w.clients, c.Bounded F := by
  intro always
  obtain ⟨n, hn⟩ : ∃ n, n = 2 ^ 20 := ⟨_, rfl⟩
  obtain ⟨w, os, ran⟩ := control_total labServer.build {} 1 [labAccept, labReceive labUpgrade]
  have opened : ((run ControlWorld.step (.start labServer.build {} 1) [labAccept, labReceive labUpgrade]).toOption.any fun r =>
      isWaiting r.1 && r.2.flatten.all (isSmall 400)) = true := by
    decide +kernel
  rw [ran] at opened
  simp only [Except.toOption, Option.any_some, Bool.and_eq_true] at opened
  obtain ⟨s, b, output, rfl, early⟩ := waiting_of_check opened.1
  obtain ⟨output', pings, length⟩ := waiting_pings early n b output
  have small : SmallLog 400 (os ++ List.replicate n (label 0 [.received labPing, pong])).flatten := by
    rw [List.flatten_append, SmallLog.append]
    refine ⟨smallLog_of_check opened.2, fun fd opcode p mem => ?_⟩
    obtain ⟨log, there, mem⟩ := List.mem_flatten.1 mem
    rw [List.eq_of_mem_replicate there] at mem
    simp only [label, List.map_cons, List.map_nil, List.mem_cons, Prod.mk.injEq, reduceCtorEq, and_false, false_or, pong,
      Reaction.frame.injEq, List.not_mem_nil, or_false] at mem
    obtain ⟨-, rfl, rfl⟩ := mem
    decide
  have bound := always labServer.build {} 1 _ _ _ 400 (run_append.2 ⟨_, _, _, ran, pings, rfl⟩) small _
    (List.mem_singleton.2 rfl) rfl
  unfold kMaxOutputBacklog at bound
  simp only [List.length_cons, length] at bound
  omega

end Runs

end IpcRelay.Ctl
