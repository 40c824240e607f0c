import IpcRelay.Ctl.Connection

/-!
# All connections

A run of the control server is, for each connection that it accepts, a life of
that connection (`Lives`), to which the shutdown may add a close frame. The
server never faults (`control_step`).
-/

namespace IpcRelay.Ctl

open WsOpcode WsClose Machine

/-- What was done for one connection. -/
def ofConnection (fd : Nat) (log : List (Nat × Reaction)) : List Reaction :=
  log.filterMap fun e => if e.1 = fd then some e.2 else none

section Log

variable {fd fd' : Nat} {log log' : List (Nat × Reaction)} {os : List Reaction}

theorem ofConnection_append : ofConnection fd (log ++ log') = ofConnection fd log ++ ofConnection fd log' :=
  List.filterMap_append

theorem ofConnection_label_same : ofConnection fd (label fd os) = os := by
  unfold ofConnection label
  rw [List.filterMap_map]
  simp

theorem ofConnection_label_other (other : fd' ≠ fd) : ofConnection fd (label fd' os) = [] := by
  unfold ofConnection label
  rw [List.filterMap_map]
  simp [other]

/-- What was done for some clients, each for itself. -/
theorem ofConnection_none {cs : List Client} {p : Client → Bool} (absent : fd ∉ cs.map Client.fd) :
    ofConnection fd (cs.flatMap fun c => if p c then label c.fd os else []) = [] := by
  induction cs with
  | nil => rfl
  | cons c cs ih =>
    rw [List.map_cons, List.mem_cons, not_or] at absent
    rw [List.flatMap_cons, ofConnection_append, ih absent.2, List.append_nil]
    split
    · exact ofConnection_label_other (Ne.symm absent.1)
    · rfl

theorem ofConnection_each {cs : List Client} {p : Client → Bool} {c : Client} (distinct : (cs.map Client.fd).Nodup)
    (mem : c ∈ cs) : ofConnection c.fd (cs.flatMap fun c => if p c then label c.fd os else []) =
      if p c then os else [] := by
  induction cs with
  | nil => cases mem
  | cons c₀ cs ih =>
    rw [List.map_cons, List.nodup_cons] at distinct
    rw [List.flatMap_cons, ofConnection_append]
    rcases List.mem_cons.1 mem with rfl | mem
    · rw [ofConnection_none distinct.1, List.append_nil]
      split
      · exact ofConnection_label_same
      · rfl
    · have other : c₀.fd ≠ c.fd := fun same => distinct.1 (same ▸ List.mem_map_of_mem mem)
      rw [ih distinct.2 mem]
      split
      · rw [ofConnection_label_other other, List.nil_append]
      · rfl

end Log

/-- The connections of a server, with all that was done for them. -/
structure Connections (S : ControlServer → Prop) (s : ControlServer) (clients : List Client) (accepted : Nat)
    (log : List (Nat × Reaction)) : Prop where
  server : S s
  below : ∀ c ∈ clients, c.fd < accepted
  distinct : (clients.map Client.fd).Nodup
  current : ∀ c ∈ clients, Life S c (ofConnection c.fd log)
  past : ∀ fd < accepted, ∃ c, c.fd = fd ∧ Life S c (ofConnection fd log)
  future : ∀ fd, accepted ≤ fd → ofConnection fd log = []

/-- Each client is visited once. -/
inductive Visited (S : ControlServer → Prop) : List Client → List Client → List (Nat × Reaction) → Prop where
  | nil : Visited S [] [] []
  | cons {c c' : Client} {cs cs' : List Client} {v : Visit} {os : List Reaction} {log : List (Nat × Reaction)} :
      v.By S → c.visit v = .ok (c', os) → Visited S cs cs' log →
        Visited S (c :: cs) (c' :: cs') (label c.fd os ++ log)

section Visits

variable {S : ControlServer → Prop} {c c' : Client} {cs cs' : List Client} {log new : List (Nat × Reaction)} {s s' : ControlServer} {accepted : Nat}

theorem ReadCase.fd {io : ClientIo} {k : Nat} {results : List RecvResult} {d : Handled}
    (rc : ReadCase s c io k results d) : d.client.fd = c.fd := by
  cases rc with
  | closing _ => rfl
  | gone _ => rfl
  | last _ _ _ _ sc => exact sc.keeps.1
  | handled _ _ _ drains => exact (drains_keeps drains).1

theorem visit_fd {v : Visit} {os : List Reaction} (ran : c.visit v = .ok (c', os)) : c'.fd = c.fd := by
  cases v with
  | serve s p =>
    by_cases dead : c.dead
    · rw [show c.visit (.serve s p) = .ok (c, []) from if_pos dead] at ran
      cases ran
      rfl
    · obtain ⟨h, d, ran', w, _, _, what⟩ := serveClient_cases s c p dead
      rw [visit_serve dead ran'] at ran
      cases ran
      refine w.fd.trans ?_
      rcases what with rfl | ⟨_, _, rc⟩
      · rfl
      · exact rc.fd
  | push s clock =>
    change Except.ok (if takesUpdate c then _ else _) = _ at ran
    split at ran <;> cases ran <;> rfl
  | flush results =>
    cases ran
    exact (flush_written c results).fd

theorem Visited.fds (h : Visited S cs cs' new) : cs'.map Client.fd = cs.map Client.fd := by
  induction h with
  | nil => rfl
  | cons _ ran _ ih => rw [List.map_cons, List.map_cons, visit_fd ran, ih]

theorem Visited.others (h : Visited S cs cs' new) {fd : Nat} (absent : fd ∉ cs.map Client.fd) :
    ofConnection fd new = [] := by
  induction h with
  | nil => rfl
  | cons _ _ _ ih =>
    rw [List.map_cons, List.mem_cons, not_or] at absent
    rw [ofConnection_append, ofConnection_label_other (Ne.symm absent.1), ih absent.2]
    rfl

/-- What was done for a client was done in its own visit. -/
theorem Visited.own (h : Visited S cs cs' new) (distinct : (cs.map Client.fd).Nodup) (mem : c' ∈ cs') :
    ∃ c ∈ cs, ∃ v : Visit, v.By S ∧ c.visit v = .ok (c', ofConnection c'.fd new) := by
  induction h with
  | nil => cases mem
  | @cons c₀ c₀' cs cs' v os log by_ ran rest ih =>
    rw [List.map_cons, List.nodup_cons] at distinct
    rw [ofConnection_append]
    rcases List.mem_cons.1 mem with rfl | mem
    · refine ⟨c₀, List.mem_cons_self .., v, by_, ?_⟩
      rw [visit_fd ran, ofConnection_label_same, rest.others distinct.1, List.append_nil]
      exact ran
    · obtain ⟨c, mem', v, by_, ran⟩ := ih distinct.2 mem
      have other : c₀.fd ≠ c'.fd := by
        intro same
        rw [visit_fd ran] at same
        exact distinct.1 (same ▸ List.mem_map_of_mem mem')
      refine ⟨c, List.mem_cons_of_mem _ mem', v, by_, ?_⟩
      rw [ofConnection_label_other other]
      exact ran

theorem Connections.visited (h : Connections S s cs accepted log) (hs : S s') (visits : Visited S cs cs' new) :
    Connections S s' cs' accepted (log ++ new) := by
  have current : ∀ c ∈ cs', Life S c (ofConnection c.fd (log ++ new)) := by
    intro c' mem
    obtain ⟨c, mem, v, by_, ran⟩ := visits.own h.distinct mem
    rw [ofConnection_append]
    have life := h.current c mem
    rw [← visit_fd ran] at life
    exact life.visit by_ ran
  have below : ∀ fd ∈ cs.map Client.fd, fd < accepted := by
    intro fd there
    obtain ⟨c, mem, rfl⟩ := List.mem_map.1 there
    exact h.below c mem
  constructor
  · exact hs
  · intro c mem
    apply below
    rw [← visits.fds]
    exact List.mem_map_of_mem mem
  · rw [visits.fds]
    exact h.distinct
  · exact current
  · intro fd lt
    by_cases here : fd ∈ cs.map Client.fd
    · rw [← visits.fds] at here
      obtain ⟨c, mem, rfl⟩ := List.mem_map.1 here
      exact ⟨c, rfl, current c mem⟩
    · rw [ofConnection_append, visits.others here, List.append_nil]
      exact h.past fd lt
  · intro fd le
    have absent : fd ∉ cs.map Client.fd := fun mem => absurd (below fd mem) (by omega)
    rw [ofConnection_append, visits.others absent, List.append_nil]
    exact h.future fd le

/-- What the server knows has changed. -/
theorem Connections.informed (h : Connections S s cs accepted log) (hs : S s') :
    Connections S s' cs accepted (log ++ []) := by
  rw [List.append_nil]
  exact ⟨hs, h.below, h.distinct, h.current, h.past, h.future⟩

/-- Clients that are closed are no longer visited. -/
theorem Connections.sublist (h : Connections S s cs accepted log) (sub : cs'.Sublist cs) : Connections S s cs' accepted log where
  server := h.server
  below c mem := h.below c (sub.subset mem)
  distinct := (sub.map Client.fd).nodup h.distinct
  current c mem := h.current c (sub.subset mem)
  past := h.past
  future := h.future

/-- A new connection, with what it is told at once. -/
theorem Connections.accept (h : Connections S s cs accepted log) {c : Client} {os : List Reaction}
    (fd : c.fd = accepted) (life : Life S c os) :
    Connections S s (cs ++ [c]) (accepted + 1) (log ++ label accepted os) := by
  have own : ofConnection accepted (log ++ label accepted os) = os := by
    rw [ofConnection_append, h.future accepted le_rfl, ofConnection_label_same, List.nil_append]
  have others {fd : Nat} (ne : fd ≠ accepted) : ofConnection fd (log ++ label accepted os) = ofConnection fd log := by
    rw [ofConnection_append, ofConnection_label_other (Ne.symm ne), List.append_nil]
  constructor
  · exact h.server
  · intro c' mem
    rcases List.mem_append.1 mem with mem | mem
    · exact Nat.lt_succ_of_lt (h.below c' mem)
    · rw [List.mem_singleton.1 mem, fd]
      exact Nat.lt_succ_self _
  · rw [List.map_append, List.nodup_append]
    refine ⟨h.distinct, List.nodup_singleton _, ?_⟩
    intro a there b mem' same
    obtain ⟨c', mem, rfl⟩ := List.mem_map.1 there
    have lt := h.below c' mem
    rw [List.map_singleton, List.mem_singleton] at mem'
    omega
  · intro c' mem
    rcases List.mem_append.1 mem with mem | mem
    · rw [others (Nat.ne_of_lt (h.below c' mem))]
      exact h.current c' mem
    · rw [List.mem_singleton.1 mem, fd, own]
      exact life
  · intro fd' lt
    by_cases new : fd' = accepted
    · rw [new, own]
      exact ⟨c, fd, life⟩
    · rw [others new]
      exact h.past fd' (by omega)
  · intro fd' le
    rw [others (by omega)]
    exact h.future fd' (by omega)

end Visits

section Rounds

variable {S : ControlServer → Prop} {cs : List Client} {log : List (Nat × Reaction)} {s : ControlServer} {accepted : Nat}

/-- A text that `drain_stats` keeps. -/
def Acceptable (text : Bytes) : Prop := ∃ v, Json.parse text = .ok (.ok v) ∧ v.isObject

/-- A text may be kept. -/
def Admits (S : ControlServer → Prop) (text : Bytes) : Prop :=
  ∀ s ns received, S s → S { s with latestStats := text, latestStatsNs := ns, statsReceived := received }

/-- The texts that `drain_stats` reads, `left` at most. -/
def offered : Nat → List StatsAnswer → List Bytes
  | left + 1, .frames first rest _ :: answers => rest.headD first :: offered left answers
  | _, _ => []

/-- The texts that an event brings on the statistics channel. -/
def ServerEvent.offers : ServerEvent → List Bytes
  | .round { poll := .ready p, .. } => (p.stats.map (offered 64)).getD []
  | _ => []

theorem drainLoop_spec (steady : Steady S) (left : Nat) (hs : S s) (got : Bool) (answers : List StatsAnswer)
    (admits : ∀ text ∈ offered left answers, Acceptable text → Admits S text) :
    ∃ s' got', drainLoop left s got answers = .ok (s', got') ∧ S s' := by
  induction left generalizing s got answers with
  | zero => exact ⟨s, got, rfl, hs⟩
  | succ left ih =>
    cases answers with
    | nil => exact ⟨s, got, rfl, hs⟩
    | cons a answers =>
      cases a with
      | error => exact ⟨s, got, rfl, hs⟩
      | frames first rest clock =>
        have others : ∀ text ∈ offered left answers, Acceptable text → Admits S text :=
          fun text mem => admits text (List.mem_cons_of_mem _ mem)
        obtain ⟨r, parsed, _⟩ := Json.parse_sound (rest.headD first) 64
        unfold drainLoop
        simp only [parsed, ok_bind]
        have invalid := ih (steady s { s with statsInvalid := s.statsInvalid + 1 } rfl rfl rfl rfl hs) got answers others
        cases r with
        | error _ => exact invalid
        | ok v =>
          simp only
          split
          · exact invalid
          next object =>
            have mayKeep := admits _ (List.mem_cons_self ..) ⟨v, parsed, by simpa using object⟩
            exact ih (mayKeep s _ _ hs) true answers others

theorem emit_dead (c : Client) (r : Reaction) (takes : Bool) : (if takes then c.emit r else c).dead = c.dead := by
  cases takes <;> rfl

/-- A broadcast is a visit to each client. -/
theorem broadcast_visited (steady : Steady S) (hs : S s) (cs : List Client) (clock : Clock) :
    ∃ s' cs' new, broadcastStats s cs clock = (s', cs', new) ∧ Visited S cs cs' new ∧ S s' ∧
      ((∀ c ∈ cs, ¬ c.dead) → ∀ c ∈ cs', ¬ c.dead) := by
  have visits : Visited S cs
      (cs.map fun c => if takesUpdate c then c.emit (.frame kText (s.statsEnvelope clock).2) else c)
      (cs.flatMap fun c => if takesUpdate c then label c.fd [.frame kText (s.statsEnvelope clock).2] else []) := by
    induction cs with
    | nil => exact .nil
    | cons c cs ih =>
      rw [List.map_cons, List.flatMap_cons]
      have one : c.visit (.push s clock) = .ok
          (if takesUpdate c then (c.emit (.frame kText (s.statsEnvelope clock).2), [.frame kText (s.statsEnvelope clock).2])
            else (c, [])) := rfl
      by_cases takes : takesUpdate c
      · rw [if_pos takes] at one ⊢
        rw [if_pos takes]
        exact .cons (v := .push s clock) hs one ih
      · rw [if_neg takes] at one ⊢
        rw [if_neg takes]
        exact .cons (v := .push s clock) hs one ih
  unfold broadcastStats
  split
  · refine ⟨_, _, _, rfl, visits, steady s _ rfl rfl rfl rfl hs, ?_⟩
    intro living c there
    obtain ⟨c₀, mem, rfl⟩ := List.mem_map.1 there
    rw [emit_dead]
    exact living c₀ mem
  next idle =>
    refine ⟨s, cs, [], rfl, ?_, hs, id⟩
    have skipped : ∀ c ∈ cs, ¬ takesUpdate c := by
      intro c mem takes
      exact idle (List.any_eq_true.2 ⟨c, mem, takes⟩)
    have same : (cs.map fun c => if takesUpdate c then c.emit (.frame kText (s.statsEnvelope clock).2) else c) = cs := by
      rw [List.map_congr_left fun c mem => if_neg (skipped c mem), List.map_id']
    have silent : (cs.flatMap fun c =>
        if takesUpdate c then label c.fd [.frame kText (s.statsEnvelope clock).2] else []) = [] :=
      List.flatMap_eq_nil_iff.2 fun c mem => if_neg (skipped c mem)
    rw [same, silent] at visits
    exact visits

/-- Reading from a client keeps what the server knows. -/
theorem ServeCase.server (steady : Steady S) {io : ClientIo} {v : Serving} {x : Found} {d : Handled} (hs : S v.server)
    (sc : ServeCase io v x d) : S d.server := by
  cases sc with
  | frame _ _ fc =>
    cases fc with
    | message _ _ _ _ ran =>
      obtain ⟨r, _, cases⟩ := handleWsMessage_cases v.server (addPiece v.client _) io v.sent (addPiece v.client _).message
      rcases cases with ⟨_, s', _, _, ran', after, _⟩ | ⟨_, ran'⟩
      · cases ran'.symm.trans ran
        rcases after with rfl | rfl
        · exact hs
        · exact steady v.server _ rfl rfl rfl rfl hs
      · cases ran'.symm.trans ran
        exact hs
    | _ => exact hs
  | badFrame _ => exact hs
  | badRequest _ => exact hs
  | response _ _ => exact hs
  | _ => exact steady v.server _ rfl rfl rfl rfl hs

theorem ReadCase.server (steady : Steady S) {c : Client} {io : ClientIo} {k : Nat} {results : List RecvResult}
    {d : Handled} (hs : S s) (rc : ReadCase s c io k results d) : S d.server := by
  cases rc with
  | closing _ => exact hs
  | gone _ => exact hs
  | @last x d rest _ _ _ _ sc =>
    have kept : S d.server := sc.server steady hs
    exact kept
  | handled _ _ _ drains =>
    refine drains.keeps (P := fun v => S v.server) ?_ hs
    intro v b v' b' o one hv
    obtain ⟨_, x, d, _, rfl, _, sc⟩ := serveStep_cases one
    exact sc.server steady hv

/-- The clients that were polled are served one after the other. -/
theorem serveClients_visited (steady : Steady S) (poll : Nat → ClientPoll) (hs : S s) (cs : List Client)
    (living : ∀ c ∈ cs, ¬ c.dead) :
    ∃ s' cs' new, serveClients poll s cs = .ok (s', cs', new) ∧ Visited S cs cs' new ∧ S s' := by
  induction cs generalizing s with
  | nil => exact ⟨s, [], [], rfl, .nil, hs⟩
  | cons c cs ih =>
    have lives := living c (List.mem_cons_self ..)
    obtain ⟨h, d, ran, _, _, same, what⟩ := serveClient_cases s c (poll c.fd) lives
    have hs' : S h.server := by
      rw [same]
      rcases what with rfl | ⟨_, _, rc⟩
      · exact hs
      · exact rc.server steady hs
    obtain ⟨s', cs', new, rest, visits, hs''⟩ := ih hs' fun c mem => living c (List.mem_cons_of_mem _ mem)
    refine ⟨s', h.client :: cs', label c.fd h.reactions ++ new, ?_,
      .cons (v := .serve s (poll c.fd)) hs (visit_serve lives ran) visits, hs''⟩
    unfold serveClients
    simp only [ran, rest, ok_bind]

/-- The writes of the last loop. -/
theorem flush_visited (writes : Nat → List SendResult) (cs : List Client) :
    Visited S cs (cs.map fun c => flush c (writes c.fd)) [] := by
  induction cs with
  | nil => exact .nil
  | cons c cs ih => exact .cons (v := .flush (writes c.fd)) trivial rfl ih

theorem acceptClients_full {n : Nat} (full : s.cfg.maxClients ≤ cs.length) :
    acceptClients s (n + 1) cs accepted =
      let (cs', accepted', new) := acceptClients s n (cs ++ [refusedClient accepted]) (accepted + 1)
      (cs', accepted', label accepted [tooMany] ++ new) := by
  rw [acceptClients]
  simp only [if_pos full]
  rfl

theorem acceptClients_free {n : Nat} (free : ¬ s.cfg.maxClients ≤ cs.length) :
    acceptClients s (n + 1) cs accepted =
      let (cs', accepted', new) := acceptClients s n (cs ++ [{ fd := accepted }]) (accepted + 1)
      (cs', accepted', label accepted [] ++ new) := by
  rw [acceptClients]
  simp only [if_neg free]
  rfl

theorem Connections.acceptClients (h : Connections S s cs accepted log) (n : Nat) :
    ∃ cs' accepted' new, Ctl.acceptClients s n cs accepted = (cs', accepted', new) ∧
      Connections S s cs' accepted' (log ++ new) := by
  induction n generalizing cs accepted log with
  | zero =>
    refine ⟨cs, accepted, [], rfl, ?_⟩
    rw [List.append_nil]
    exact h
  | succ n ih =>
    by_cases full : s.cfg.maxClients ≤ cs.length
    · obtain ⟨cs', accepted', new, rest, all⟩ := ih (h.accept (c := refusedClient accepted) rfl (.refused accepted))
      rw [List.append_assoc] at all
      refine ⟨cs', accepted', _, ?_, all⟩
      rw [acceptClients_full full, rest]
    · obtain ⟨cs', accepted', new, rest, all⟩ := ih (h.accept (c := { fd := accepted }) rfl (.accepted accepted))
      rw [List.append_assoc] at all
      refine ⟨cs', accepted', _, ?_, all⟩
      rw [acceptClients_free full, rest]

variable {w : ControlWorld}

theorem drainStats_spec (steady : Steady S) (answers : List StatsAnswer) (clock : Clock)
    (h : Connections S s cs accepted log) (living : ∀ c ∈ cs, ¬ c.dead)
    (admits : ∀ text ∈ offered 64 answers, Acceptable text → Admits S text) :
    ∃ s' cs' new, drainStats s cs answers clock = .ok (s', cs', new) ∧ Connections S s' cs' accepted (log ++ new) ∧
      ∀ c ∈ cs', ¬ c.dead := by
  obtain ⟨s', got, ran, hs⟩ := drainLoop_spec steady 64 h.server false answers admits
  unfold drainStats
  rw [ran, ok_bind]
  simp only
  split
  · obtain ⟨s'', cs', new, cast, visits, hs', lives⟩ := broadcast_visited steady
      (steady s' { s' with pushOnNextStats := false } rfl rfl rfl rfl hs) cs clock
    exact ⟨s'', cs', new, by rw [cast], h.visited hs' visits, lives living⟩
  · exact ⟨s', cs, [], rfl, h.informed hs, living⟩

theorem serveReady_spec (steady : Steady S) (p : Ready) (h : Connections S w.server w.clients w.accepted log)
    (living : ∀ c ∈ w.clients, ¬ c.dead)
    (admits : ∀ text ∈ (p.stats.map (offered 64)).getD [], Acceptable text → Admits S text) :
    ∃ w' rs, serveReady w p = .ok (w', rs) ∧ Connections S w'.server w'.clients w'.accepted (log ++ rs) ∧
      w'.running = w.running := by
  have served (s₁ : ControlServer) (cs₁ : List Client) (rs₁ : List (Nat × Reaction))
      (h₁ : Connections S s₁ cs₁ w.accepted (log ++ rs₁)) (living₁ : ∀ c ∈ cs₁, ¬ c.dead) :
      ∃ s₂ cs₂ rs₂ cs₃ accepted rs₃, serveClients p.client s₁ cs₁ = .ok (s₂, cs₂, rs₂) ∧
        acceptClients s₂ p.accepts cs₂ w.accepted = (cs₃, accepted, rs₃) ∧
        Connections S s₂ cs₃ accepted (log ++ (rs₁ ++ rs₂ ++ rs₃)) := by
    obtain ⟨s₂, cs₂, rs₂, ran₂, visits, hs⟩ := serveClients_visited steady p.client h₁.server cs₁ living₁
    obtain ⟨cs₃, accepted, rs₃, ran₃, h₃⟩ := (h₁.visited hs visits).acceptClients p.accepts
    refine ⟨s₂, cs₂, rs₂, cs₃, accepted, rs₃, ran₂, ran₃, ?_⟩
    rw [← List.append_assoc, ← List.append_assoc]
    exact h₃
  unfold serveReady
  cases stats : p.stats with
  | none =>
    obtain ⟨s₂, cs₂, rs₂, cs₃, accepted, rs₃, ran₂, ran₃, h₃⟩ := served _ _ [] (h.informed h.server) living
    simp only [ok_bind, ran₂, ran₃]
    exact ⟨_, _, rfl, h₃, rfl⟩
  | some answers =>
    rw [stats] at admits
    obtain ⟨s₁, cs₁, rs₁, ran₁, h₁, living₁⟩ := drainStats_spec steady answers p.pushClock h living admits
    obtain ⟨s₂, cs₂, rs₂, cs₃, accepted, rs₃, ran₂, ran₃, h₃⟩ := served s₁ cs₁ rs₁ h₁ living₁
    simp only [ok_bind, ran₁, ran₂, ran₃]
    exact ⟨_, _, rfl, h₃, rfl⟩

/-- The end of a round: the update, if one is due, and the writes. -/
theorem endRound_cases (w : ControlWorld) (r : Round) : ∃ s cs rs,
    endRound w r = ({ w with
      server := s, clients := (cs.map fun c => flush c (r.writes c.fd)).filter fun c => !c.dead }, rs) ∧
    ((∃ s₁, broadcastStats w.server w.clients r.clock = (s₁, cs, rs) ∧
      s = { s₁ with nextUpdateNs := nextUpdate s₁ r.clock.monotonicNs }) ∨ s = w.server ∧ cs = w.clients ∧ rs = []) := by
  unfold endRound
  by_cases due : w.server.nextUpdateNs ≤ r.clock.monotonicNs
  · simp only [if_pos due]
    exact ⟨_, _, _, rfl, .inl ⟨_, rfl, rfl⟩⟩
  · simp only [if_neg due]
    exact ⟨_, _, _, rfl, .inr ⟨rfl, rfl, rfl⟩⟩

theorem endRound_spec (steady : Steady S) (r : Round) (h : Connections S w.server w.clients w.accepted log) :
    Connections S (endRound w r).1.server (endRound w r).1.clients (endRound w r).1.accepted (log ++ (endRound w r).2) ∧
      (∀ c ∈ (endRound w r).1.clients, ¬ c.dead) ∧ (endRound w r).1.running = w.running := by
  obtain ⟨s, cs, rs, ends, cast⟩ := endRound_cases w r
  have h' : Connections S s cs w.accepted (log ++ rs) := by
    rcases cast with ⟨s₁, cast, rfl⟩ | ⟨rfl, rfl, rfl⟩
    · obtain ⟨s₂, cs₂, rs₂, cast₂, visits, hs, _⟩ := broadcast_visited steady h.server w.clients r.clock
      rw [cast] at cast₂
      cases cast₂
      exact h.visited (steady s₁ _ rfl rfl rfl rfl hs) visits
    · exact h.informed h.server
  rw [ends]
  refine ⟨?_, ?_, rfl⟩
  · have wrote := h'.visited h'.server (flush_visited r.writes cs)
    rw [List.append_nil] at wrote
    exact wrote.sublist List.filter_sublist
  · intro c mem
    simpa using (List.mem_filter.1 mem).2

end Rounds

section Runs

variable {S : ControlServer → Prop} {w w' : ControlWorld} {log : List (Nat × Reaction)}

/-- A connection with all that was done for it: a life, and the close frame of the shutdown if it was still open then,
in a state of `G`. -/
inductive Ended (S : ControlServer → Prop) (G : Client → Prop) : Client → List Reaction → Prop where
  | life {c : Client} {rs : List Reaction} : Life S c rs → Ended S G c rs
  | goingAway {c : Client} {rs : List Reaction} : Life S c rs → takesGoingAway c → G c →
      Ended S G c (rs ++ [Ctl.goingAway])

/-- What holds of a run of the server. -/
structure Ran (S : ControlServer → Prop) (G : Client → Prop) (w : ControlWorld) (log : List (Nat × Reaction)) : Prop where
  running : w.running → Connections S w.server w.clients w.accepted log ∧ ∀ c ∈ w.clients, ¬ c.dead
  stopped : ¬ w.running → w.clients = []
  all : ∀ fd, ∃ c, c.fd = fd ∧ Ended S G c (ofConnection fd log)

theorem Connections.all {s : ControlServer} {cs : List Client} {accepted : Nat} {G : Client → Prop}
    (h : Connections S s cs accepted log) (fd : Nat) : ∃ c, c.fd = fd ∧ Ended S G c (ofConnection fd log) := by
  rcases Nat.lt_or_ge fd accepted with lt | ge
  · obtain ⟨c, same, life⟩ := h.past fd lt
    exact ⟨c, same, .life life⟩
  · rw [h.future fd ge]
    exact ⟨{ fd := fd }, rfl, .life (.accepted fd)⟩

/-- At the shutdown each open WebSocket is sent a close frame. -/
theorem shutdown_all {G : Client → Prop} (h : Connections S w.server w.clients w.accepted log)
    (good : ∀ c ∈ w.clients, takesGoingAway c → G c) (fd : Nat) :
    ∃ c, c.fd = fd ∧ Ended S G c (ofConnection fd (log ++ (shutdown w).2)) := by
  rw [ofConnection_append]
  by_cases here : fd ∈ w.clients.map Client.fd
  · obtain ⟨c, mem, rfl⟩ := List.mem_map.1 here
    refine ⟨c, rfl, ?_⟩
    rw [show ofConnection c.fd (shutdown w).2 = if takesGoingAway c then [goingAway] else [] from
      ofConnection_each h.distinct mem]
    split
    next takes => exact .goingAway (h.current c mem) takes (good c mem takes)
    next =>
      rw [List.append_nil]
      exact .life (h.current c mem)
  · rw [show ofConnection fd (shutdown w).2 = [] from ofConnection_none here, List.append_nil]
    exact h.all fd

/-- The server goes on, whatever happens. -/
theorem control_step {G : Client → Prop} (steady : Steady S) (h : Ran S G w log) (e : ServerEvent)
    (admits : ∀ text ∈ e.offers, Acceptable text → Admits S text)
    (good : e = .shutdown → ∀ c ∈ w.clients, takesGoingAway c → G c) :
    ∃ w' rs, w.step e = .ok (w', rs) ∧ Ran S G w' (log ++ rs) := by
  unfold ControlWorld.step
  by_cases running : w.running
  · obtain ⟨connections, living⟩ := h.running running
    rw [if_neg (by simp [running])]
    cases e with
    | shutdown => exact ⟨_, _, rfl, by simp, fun _ => rfl, shutdown_all connections (good rfl)⟩
    | round r =>
      have polled : ∃ w' goesOn rs, pollOnce w r = .ok (w', goesOn, rs) ∧
          Connections S w'.server w'.clients w'.accepted (log ++ rs) ∧ (∀ c ∈ w'.clients, ¬ c.dead) ∧
            w'.running = w.running := by
        unfold pollOnce
        cases poll : r.poll with
        | interrupted => exact ⟨_, _, _, rfl, connections.informed connections.server, living, rfl⟩
        | error => exact ⟨_, _, _, rfl, connections.informed connections.server, living, rfl⟩
        | timeout =>
          obtain ⟨h', living', same⟩ := endRound_spec steady r connections
          exact ⟨_, _, _, rfl, h', living', same⟩
        | ready p =>
          have admits : ∀ text ∈ (p.stats.map (offered 64)).getD [], Acceptable text → Admits S text := by
            intro text mem
            apply admits
            unfold ServerEvent.offers
            obtain ⟨_, _, _⟩ := r
            cases poll
            exact mem
          obtain ⟨w₁, rs₁, ran, h₁, same₁⟩ := serveReady_spec steady p connections living admits
          obtain ⟨h', living', same⟩ := endRound_spec steady r h₁
          rw [List.append_assoc] at h'
          refine ⟨_, true, _, ?_, h', living', same.trans same₁⟩
          simp only
          rw [ran, ok_bind]
      obtain ⟨w', goesOn, rs, ran, h', living', same⟩ := polled
      simp only [ran, ok_bind]
      refine ⟨_, _, rfl, ?_, ?_, h'.all⟩
      · intro still
        split
        · exact ⟨h', living'⟩
        next stops =>
          rw [if_neg stops] at still
          cases still
      · intro ended
        split
        next goes =>
          rw [if_pos goes] at ended
          exact absurd (same.trans running) ended
        next => rfl
  · rw [if_pos (by simp [running])]
    refine ⟨w, [], rfl, fun r => absurd r running, h.stopped, ?_⟩
    rw [List.append_nil]
    exact h.all

/-- The server when `init` has returned. -/
def ControlWorld.start (build : CtlBuild) (cfg : ControlServerConfig) (nextUpdateNs : UInt64) : ControlWorld :=
  { server := { build := build, cfg := cfg, nextUpdateNs := nextUpdateNs } }

variable {build : CtlBuild} {cfg : ControlServerConfig} {nextUpdateNs : UInt64} {T : Bytes → Prop} {G : Client → Prop}

theorem keeps_admits {text : Bytes} (h : T text) : Admits (ControlServer.Keeps build cfg T) text :=
  fun _ _ _ hs => ⟨hs.build, hs.cfg, fun _ => h⟩

theorem ran_start : Ran (ControlServer.Keeps build cfg T) G (.start build cfg nextUpdateNs) [] where
  running _ := by
    refine ⟨⟨⟨rfl, rfl, fun known => absurd rfl known⟩, ?_, List.nodup_nil, ?_, ?_, fun _ _ => rfl⟩, ?_⟩
    · intro c mem
      cases mem
    · intro c mem
      cases mem
    · intro fd lt
      cases lt
    · intro c mem
      cases mem
  stopped _ := rfl
  all fd := ⟨{ fd := fd }, rfl, .life (.accepted fd)⟩

/-- Every connection of a run of the server has its life. -/
theorem control_run {es : List ServerEvent} {os : List (List (Nat × Reaction))}
    (ran : run ControlWorld.step (.start build cfg nextUpdateNs) es = .ok (w, os))
    (admits : ∀ e ∈ es, ∀ text ∈ e.offers, Acceptable text → T text)
    (good : Throughout ControlWorld.step (.start build cfg nextUpdateNs)
      (fun w e => e = .shutdown → ∀ c ∈ w.clients, takesGoingAway c → G c) es) :
    Ran (ControlServer.Keeps build cfg T) G w os.flatten := by
  induction es using List.reverseRecOn generalizing w os with
  | nil =>
    cases ran
    exact ran_start
  | append_singleton es e ih =>
    obtain ⟨m, os₁, o, before, one, rfl⟩ := run_snoc.1 ran
    obtain ⟨good₁, here⟩ := (throughout_snoc before).1 good
    have h := ih before (fun e mem => admits e (List.mem_append_left _ mem)) good₁
    obtain ⟨w', rs, one', h'⟩ := control_step (keeps_steady build cfg T) h e
      (fun text mem ok => keeps_admits (admits e (by simp) text mem ok)) here
    cases one'.symm.trans one
    rw [List.flatten_append, List.flatten_singleton]
    exact h'

/-- Every connection has its life, whatever is published and whoever is told that the server goes away. -/
theorem control_ran {es : List ServerEvent} {os : List (List (Nat × Reaction))}
    (ran : run ControlWorld.step (.start build cfg nextUpdateNs) es = .ok (w, os)) :
    Ran (ControlServer.Keeps build cfg fun _ => True) (fun _ => True) w os.flatten :=
  control_run ran (fun _ _ _ _ _ => trivial) fun _ _ _ _ _ _ _ _ _ _ => trivial

/-- A client of the server is alive, and has its life behind it. -/
theorem Ran.client {S : ControlServer → Prop} {log : List (Nat × Reaction)} (h : Ran S G w log) {c : Client}
    (mem : c ∈ w.clients) : Life S c (ofConnection c.fd log) ∧ ¬ c.dead := by
  have running : w.running := by
    by_contra stopped
    rw [h.stopped stopped] at mem
    cases mem
  obtain ⟨connections, living⟩ := h.running running
  exact ⟨connections.current c mem, living c mem⟩

/-- Whatever clients, publishers and the system do, no read of the server is out of bounds. -/
theorem control_total (build : CtlBuild) (cfg : ControlServerConfig) (nextUpdateNs : UInt64) (es : List ServerEvent) :
    ∃ w os, run ControlWorld.step (.start build cfg nextUpdateNs) es = .ok (w, os) := by
  have safe : ∀ w e, (∃ log, Ran (ControlServer.Keeps build cfg fun _ => True) (fun _ => True) w log) →
      ∃ w' os, ControlWorld.step w e = .ok (w', os) ∧
        ∃ log, Ran (ControlServer.Keeps build cfg fun _ => True) (fun _ => True) w' log := by
    rintro w e ⟨log, h⟩
    obtain ⟨w', rs, one, h'⟩ := control_step (keeps_steady build cfg _) h e
      (fun text _ _ => keeps_admits trivial) (fun _ _ _ _ => trivial)
    exact ⟨w', rs, one, _, h'⟩
  obtain ⟨w, os, ran, _⟩ := run_total safe es ⟨[], ran_start⟩
  exact ⟨w, os, ran⟩

end Runs

end IpcRelay.Ctl
