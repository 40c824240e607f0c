import IpcRelay.Ctl.Connections

/-!
# The visits of a run

What one event of the control server reads from its clients: `reads` are the bytes
that the calls of `recv` return in the visits whose bytes are handed to the parsers.
The `received` of a connection are these bytes, over the whole run (`run_reads`).
-/

namespace IpcRelay.Ctl

open WsOpcode Machine Incremental

/-- What is left when the statistics channel was read, before the clients are served. -/
def ControlWorld.afterStats (w : ControlWorld) (p : Ready) : Exec (ControlServer × List Client × List (Nat × Reaction)) :=
  match p.stats with
  | some answers => drainStats w.server w.clients answers p.pushClock
  | none => .ok (w.server, w.clients, [])

/-- The bytes of a visit that the parsers get: those of a client that is alive and not being closed, where the reading
ended because there was no more. -/
def visitReads (c : Client) (p : ClientPoll) : Bytes :=
  match p.input with
  | some results => if c.dead ∨ c.closeAfterWrite ∨ (recvAll results).2 ≠ .again then [] else (recvAll results).1
  | none => []

/-- What an event reads, with the connections that it comes from. -/
def ControlWorld.reads (w : ControlWorld) (e : ServerEvent) : List (Nat × Bytes) :=
  if !w.running then []
  else
    match e with
    | .round { poll := .ready p, .. } =>
      match w.afterStats p with
      | .ok (_, clients, _) => clients.map fun c => (c.fd, visitReads c (p.client c.fd))
      | .error _ => []
    | _ => []

/-- What was read from one of them. -/
def readFrom (fd : Nat) (reads : List (Nat × Bytes)) : Bytes := reads.flatMap fun x => if x.1 = fd then x.2 else []

section Updates

variable {s s' : ControlServer} {cs cs' : List Client} {log : List (Nat × Reaction)}

/-- The clients are left as they are, or those that take the update have it queued. -/
theorem broadcast_cases {clock : Clock} (cast : broadcastStats s cs clock = (s', cs', log)) :
    (cs' = cs ∧ log = []) ∨ ∃ text, (cs' = cs.map fun c => if takesUpdate c then c.emit (.frame kText text) else c) ∧
      log = cs.flatMap fun c => if takesUpdate c then label c.fd [.frame kText text] else [] := by
  unfold broadcastStats at cast
  split at cast
  · obtain ⟨s₁, text, envelope⟩ : ∃ s₁ text, s.statsEnvelope clock = (s₁, text) := ⟨_, _, rfl⟩
    rw [envelope] at cast
    cases cast
    exact .inr ⟨text, rfl, rfl⟩
  · cases cast
    exact .inl ⟨rfl, rfl⟩

/-- What a client keeps when an update is queued for it, the clients keep in a push. -/
theorem broadcast_keeps {P : Client → Prop} (kept : ∀ c text, P c → P (c.emit (.frame kText text))) {clock : Clock}
    (cast : broadcastStats s cs clock = (s', cs', log)) (h : ∀ c ∈ cs, P c) : ∀ c ∈ cs', P c := by
  rcases broadcast_cases cast with ⟨rfl, rfl⟩ | ⟨text, rfl, rfl⟩
  · exact h
  · intro c' mem
    obtain ⟨c, there, rfl⟩ := List.mem_map.1 mem
    split
    · exact kept c text (h c there)
    · exact h c there

/-- A publication changes nothing for the clients, or it is pushed to them. -/
theorem drainStats_cases {answers : List StatsAnswer} {clock : Clock}
    (ran : drainStats s cs answers clock = .ok (s', cs', log)) :
    (cs' = cs ∧ log = []) ∨ ∃ s₁, broadcastStats s₁ cs clock = (s', cs', log) := by
  unfold drainStats at ran
  obtain ⟨⟨s₁, got⟩, _, ran⟩ := bind_ok.1 ran
  simp only at ran
  split at ran
  · exact .inr ⟨_, Except.ok.inj ran⟩
  · cases ran
    exact .inl ⟨rfl, rfl⟩

theorem afterStats_cases {w : ControlWorld} {p : Ready} (stats : w.afterStats p = .ok (s', cs', log)) :
    (cs' = w.clients ∧ log = []) ∨ ∃ s clock, broadcastStats s w.clients clock = (s', cs', log) := by
  unfold ControlWorld.afterStats at stats
  split at stats
  · exact (drainStats_cases stats).imp_right fun ⟨s, cast⟩ => ⟨s, _, cast⟩
  · cases stats
    exact .inl ⟨rfl, rfl⟩

end Updates

theorem serveReady_eq (w : ControlWorld) (p : Ready) : serveReady w p = (do
    let (s, clients, rs₁) ← w.afterStats p
    let (s, clients, rs₂) ← serveClients p.client s clients
    let (clients, accepted, rs₃) := acceptClients s p.accepts clients w.accepted
    .ok ({ w with server := s, clients := clients, accepted := accepted }, rs₁ ++ rs₂ ++ rs₃)) := by
  unfold serveReady ControlWorld.afterStats
  cases p.stats <;> rfl

section Reads

variable {s s' : ControlServer} {c : Client} {cs cs' : List Client} {log : List (Nat × Reaction)} {fd : Nat}
  {w w' : ControlWorld}

theorem received_append (rs rs' : List Reaction) : received (rs ++ rs') = received rs ++ received rs' :=
  List.flatMap_append

/-- Nothing is read. -/
def Silent (log : List (Nat × Reaction)) : Prop := ∀ x ∈ log, ∀ data, x.2 ≠ .received data

theorem Silent.nil : Silent [] := fun x mem => by cases mem

theorem Silent.received (silent : Silent log) (fd : Nat) : received (ofConnection fd log) = [] := by
  unfold Ctl.received
  rw [List.flatMap_eq_nil_iff]
  intro r mem
  obtain ⟨x, there, here⟩ := List.mem_filterMap.1 mem
  split at here
  · cases here
    have quiet := silent x there
    generalize x.2 = r at quiet
    cases r with
    | received data => exact absurd rfl (quiet data)
    | _ => rfl
  · cases here

theorem broadcast_silent {clock : Clock} (cast : broadcastStats s cs clock = (s', cs', log)) : Silent log := by
  rcases broadcast_cases cast with ⟨-, rfl⟩ | ⟨text, -, rfl⟩
  · exact .nil
  · intro x mem data same
    obtain ⟨c, -, mem⟩ := List.mem_flatMap.1 mem
    split at mem
    · rw [List.mem_singleton.1 mem] at same
      cases same
    · cases mem

theorem endRound_silent (w : ControlWorld) (r : Round) : Silent (endRound w r).2 := by
  obtain ⟨s, cs, rs, ends, cast⟩ := endRound_cases w r
  rw [ends]
  rcases cast with ⟨s₁, cast, -⟩ | ⟨-, -, idle⟩
  · exact broadcast_silent cast
  · rw [idle]
    exact .nil

theorem acceptClients_silent (n accepted : Nat) : Silent (acceptClients s n cs accepted).2.2 := by
  induction n generalizing cs accepted with
  | zero => exact .nil
  | succ n ih =>
    intro x mem data same
    rcases List.mem_append.1 mem with mem | mem
    · split at mem
      · rw [List.mem_singleton.1 mem] at same
        cases same
      · cases mem
    · exact ih _ x mem data same

/-- A visit logs the bytes that the parsers get. -/
theorem received_serveClient {p : ClientPoll} {h : Handled} (living : ¬ c.dead) (ran : serveClient s c p = .ok h) :
    received h.reactions = visitReads c p := by
  unfold serveClient at ran
  unfold visitReads
  cases input : p.input with
  | none =>
    rw [input] at ran
    cases ran
    rfl
  | some results =>
    obtain ⟨g, read, rc⟩ := readClient_cases s c p.io 0 results living
    simp only [input, read, ok_bind] at ran
    cases ran
    dsimp only
    cases rc with
    | closing closing =>
      rw [if_pos (.inr (.inl closing))]
      rfl
    | gone broken =>
      rw [if_pos (.inr (.inr broken))]
      rfl
    | last _ _ ending _ sc =>
      rw [if_pos (.inr (.inr (by rw [ending]; rintro ⟨⟩)))]
      exact received_effective sc.effective
    | handled alive calm reactions drains =>
      have rest := received_effective (drains_effective drains)
      rw [if_neg (by rw [not_or] at alive; simp [alive, calm]), reactions]
      unfold received at rest ⊢
      rw [List.flatMap_cons, rest, List.append_nil]

theorem received_serveClients {poll : Nat → ClientPoll} (ran : serveClients poll s cs = .ok (s', cs', log))
    (living : ∀ c ∈ cs, ¬ c.dead) (fd : Nat) :
    received (ofConnection fd log) = readFrom fd (cs.map fun c => (c.fd, visitReads c (poll c.fd))) := by
  induction cs generalizing s cs' log with
  | nil =>
    cases ran
    rfl
  | cons c cs ih =>
    unfold serveClients at ran
    obtain ⟨h, one, ran⟩ := bind_ok.1 ran
    obtain ⟨⟨s₁, cs₁, log₁⟩, rest, ran⟩ := bind_ok.1 ran
    cases ran
    have later := ih rest fun c mem => living c (List.mem_cons_of_mem _ mem)
    have here := received_serveClient (living c List.mem_cons_self) one
    unfold readFrom at later ⊢
    rw [ofConnection_append, received_append, List.map_cons, List.flatMap_cons, later]
    congr 1
    dsimp only
    split
    next same => rw [← same, ofConnection_label_same, here]
    next other => rw [ofConnection_label_other other]; rfl

/-- What one event logs of a connection as received is what it reads from it. -/
theorem step_reads {e : ServerEvent} (one : w.step e = .ok (w', log)) (living : ∀ c ∈ w.clients, ¬ c.dead) (fd : Nat) :
    received (ofConnection fd log) = readFrom fd (w.reads e) := by
  unfold ControlWorld.step at one
  unfold ControlWorld.reads
  split at one
  next stopped =>
    cases one
    rw [if_pos stopped]
    rfl
  next running =>
  rw [if_neg running]
  cases e with
  | shutdown =>
    cases one
    refine Silent.received (fun x mem data same => ?_) fd
    obtain ⟨c, -, mem⟩ := List.mem_flatMap.1 mem
    split at mem
    · rw [List.mem_singleton.1 mem] at same
      cases same
    · cases mem
  | round r =>
    obtain ⟨⟨w₁, goesOn, rs⟩, polled, one⟩ := bind_ok.1 one
    cases one
    have nothing : received (ofConnection fd []) = readFrom fd [] := rfl
    unfold pollOnce at polled
    cases r with
    | mk poll clock writes =>
    cases poll with
    | interrupted =>
      cases polled
      exact nothing
    | error =>
      cases polled
      exact nothing
    | timeout =>
      cases polled
      exact (endRound_silent w _).received fd
    | ready p =>
      obtain ⟨⟨w₂, rs₂⟩, ready, polled⟩ := bind_ok.1 polled
      cases polled
      rw [ofConnection_append, received_append, (endRound_silent w₂ _).received, List.append_nil]
      rw [serveReady_eq] at ready
      obtain ⟨⟨s₁, cs₁, log₁⟩, stats, ready⟩ := bind_ok.1 ready
      obtain ⟨⟨s₂, cs₂, log₂⟩, clients, ready⟩ := bind_ok.1 ready
      cases ready
      dsimp only
      rw [stats]
      have first : Silent log₁ ∧ ∀ c ∈ cs₁, ¬ c.dead := by
        rcases afterStats_cases stats with ⟨rfl, rfl⟩ | ⟨s₀, clock, cast⟩
        · exact ⟨.nil, living⟩
        · exact ⟨broadcast_silent cast, broadcast_keeps (fun _ _ lives => lives) cast living⟩
      rw [ofConnection_append, ofConnection_append, received_append, received_append, first.1.received,
        (acceptClients_silent _ _).received, List.nil_append, List.append_nil]
      exact received_serveClients clients first.2 fd

end Reads

section Run

variable {build : CtlBuild} {cfg : ControlServerConfig} {nextUpdateNs : UInt64} {es : List ServerEvent}
  {w : ControlWorld} {os : List (List (Nat × Reaction))}

theorem clients_living (ran : run ControlWorld.step (.start build cfg nextUpdateNs) es = .ok (w, os)) :
    ∀ c ∈ w.clients, ¬ c.dead := fun _ mem => ((control_ran ran).client mem).2

/-- In every run, what was received on a connection is what the visits of it read. -/
theorem run_reads (ran : run ControlWorld.step (.start build cfg nextUpdateNs) es = .ok (w, os)) (fd : Nat) :
    received (ofConnection fd os.flatten) =
      readFrom fd (collect ControlWorld.step (fun w e _ => w.reads e) (.start build cfg nextUpdateNs) es) := by
  induction es using List.reverseRecOn generalizing w os with
  | nil =>
    cases ran
    rfl
  | append_singleton es e ih =>
    obtain ⟨u, us, o, before, one, rfl⟩ := run_snoc.1 ran
    rw [collect_snoc before one, List.flatten_append, ofConnection_append, received_append, ih before]
    have last := step_reads one (clients_living before) fd
    unfold readFrom at last ⊢
    rw [List.flatMap_append, ← last, List.flatten_singleton]

end Run

end IpcRelay.Ctl
