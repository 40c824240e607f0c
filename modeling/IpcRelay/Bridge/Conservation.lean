import IpcRelay.Bridge.OutputStream

/-!
# Conservation of the bridge counters

`outcome` says what becomes of a message from its length and the answers to its
sends alone, `inbox` which messages a source has received, whatever its socket
answered. `Booked` is what one call of `transmit` does to both structures of
counters, `Accounts` what holds of all sources together between two calls
(`Accounts.transmit`), and so between two events of a run (`run_accounts`).
-/

namespace IpcRelay

open Wire Machine

namespace Bridge

inductive Outcome where
  | sent
  | oversize
  | sendError
  | sendTimeout
  deriving DecidableEq, Repr

instance (cfg : BridgeConfig) (len : Nat) : Decidable (OverLimits cfg len) :=
  inferInstanceAs (Decidable (_ ∨ _))

/-- The answer to the first send that fails, of `left` sends from the `i`-th on. -/
def failure (sends : Nat → SendOutcome) (i left : Nat) : Option SendOutcome :=
  ((List.range' i left).map sends).find? fun s => !isSent s

/-- A message within the limits is sent unless one of its fragments fails. -/
def Call.outcome (cfg : BridgeConfig) (c : Call) : Outcome :=
  if OverLimits cfg c.data.length then .oversize
  else
    match failure c.sends 0 (fragmentsNeeded c.data.length cfg.fragmentPayload.toNat) with
    | none => .sent
    | some .timeout => .sendTimeout
    | some _ => .sendError

/-- The message needs more than one datagram, and goes out in pieces. -/
def Call.Fragmented (cfg : BridgeConfig) (c : Call) : Prop :=
  ¬ OverLimits cfg c.data.length ∧ 1 < fragmentsNeeded c.data.length cfg.fragmentPayload.toNat

instance (cfg : BridgeConfig) (c : Call) : Decidable (c.Fragmented cfg) := inferInstanceAs (Decidable (_ ∧ _))

/-- The messages that one call of `service_source` receives, and the answers that it leaves. -/
def receive (index : Nat) : Nat → List RecvAnswer → List Call × List RecvAnswer
  | 0, q => ([], q)
  | _ + 1, [] => ([], [])
  | budget + 1, .interrupted :: q => receive index budget q
  | _ + 1, .error :: q => ([], q)
  | budget + 1, .frame data more timestampNs sends :: q =>
    if more then
      match recvRest data q with
      | (false, _, q) => ([], q)
      | (true, concat, q) =>
        let r := receive index budget q
        (⟨index, concat, kFlagMultipart, timestampNs, sends⟩ :: r.1, r.2)
    else
      let r := receive index budget q
      (⟨index, data, 0, timestampNs, sends⟩ :: r.1, r.2)

end Bridge

open Bridge

/-- One source: the answers that wait and the messages received. -/
structure Inbox where
  queue : List RecvAnswer := []
  calls : List Call := []

def Inbox.step (index budget : Nat) (b : Inbox) : LaneEvent → Inbox
  | .arrive answers => { b with queue := b.queue ++ answers }
  | .serve => { queue := (receive index budget b.queue).2, calls := b.calls ++ (receive index budget b.queue).1 }

/-- What a source has received after the events. -/
def inbox (cfg : BridgeConfig) (index : Nat) (es : List BridgeEvent) : Inbox :=
  (es.filterMap (laneView index)).foldl (Inbox.step index cfg.maxMessagesPerPoll.toNat) {}

namespace Bridge

section Transmit

variable {cfg : BridgeConfig} {c : Call}

/-- What the loop over the fragments does to the counters. -/
structure LoopBooked (failed : Option SendOutcome) (t : Transmitted) (st st' : BridgeSourceStats)
    (stats stats' : BridgeStats) : Prop where
  ok : t.ok = failed.isNone
  source : st' = { st with datagrams := st.datagrams + t.datagrams.length,
                           sendErrors := st.sendErrors + if failed = some .error then 1 else 0,
                           sendTimeouts := st.sendTimeouts + if failed = some .timeout then 1 else 0 }
  datagramsSent : stats'.datagramsSent = stats.datagramsSent + t.datagrams.length
  sendErrors : stats'.sendErrors = stats.sendErrors + if failed = some .error then 1 else 0
  sendTimeouts : stats'.sendTimeouts = stats.sendTimeouts + if failed = some .timeout then 1 else 0

theorem failure_succ (sends : Nat → SendOutcome) (i left : Nat) :
    failure sends i (left + 1) = if isSent (sends i) then failure sends (i + 1) left else some (sends i) := by
  unfold failure
  rw [List.range'_succ, List.map_cons, List.find?_cons]
  cases isSent (sends i) <;> rfl

/-- The failure, if any, is a timeout or an error. -/
theorem failure_cases (sends : Nat → SendOutcome) (i left : Nat) :
    failure sends i left = none ∨ failure sends i left = some .timeout ∨ failure sends i left = some .error := by
  cases h : failure sends i left with
  | none => exact .inl rfl
  | some s =>
    have unsent := List.find?_some h
    cases s with
    | sent bytes => cases unsent
    | timeout => exact .inr (.inl rfl)
    | error => exact .inr (.inr rfl)

theorem sendFragments_booked {data : Bytes} {chunk : Nat} {sends : Nat → SendOutcome} (left : Nat) :
    ∀ {i offset : Nat} {h : Header} {st st' : BridgeSourceStats} {stats stats' : BridgeStats} {t : Transmitted},
      sendFragments data chunk sends left i offset h st stats = .ok (st', stats', t) →
      LoopBooked (failure sends i left) t st st' stats stats' := by
  induction left with
  | zero =>
    intro i offset h st st' stats stats' t ran
    cases ran
    exact ⟨rfl, rfl, rfl, rfl, rfl⟩
  | succ left ih =>
    intro i offset h st st' stats stats' t ran
    obtain ⟨payload, _, ran⟩ := bind_ok.1 ran
    rw [failure_succ]
    cases answer : sends i with
    | timeout =>
      rw [answer] at ran
      cases ran
      exact ⟨rfl, rfl, rfl, rfl, rfl⟩
    | error =>
      rw [answer] at ran
      cases ran
      exact ⟨rfl, rfl, rfl, rfl, rfl⟩
    | sent bytes =>
      rw [answer] at ran
      obtain ⟨⟨st₁, stats₁, out⟩, rest, last⟩ := bind_ok.1 ran
      cases last
      have booked := ih rest
      constructor
      · exact booked.ok
      · rw [booked.source]
        simp only [isSent, if_true, List.length_cons, BridgeSourceStats.mk.injEq, true_and, and_true]
        omega
      · rw [booked.datagramsSent, List.length_cons, Nat.add_comm out.datagrams.length, ← Nat.add_assoc]
      · exact booked.sendErrors
      · exact booked.sendTimeouts

/-- What one call of `transmit` does to the counters. -/
structure Booked (cfg : BridgeConfig) (c : Call) (t : Transmitted) (st st' : BridgeSourceStats)
    (stats stats' : BridgeStats) : Prop where
  messages : st'.messages = st.messages + 1
  nextSequence : st'.nextSequence = st.nextSequence + 1
  ok : t.ok = decide (c.outcome cfg = .sent)
  datagrams : st'.datagrams = st.datagrams + t.datagrams.length
  oversize : st'.oversize = st.oversize + if c.outcome cfg = .oversize then 1 else 0
  sendErrors : st'.sendErrors = st.sendErrors + if c.outcome cfg = .sendError then 1 else 0
  sendTimeouts : st'.sendTimeouts = st.sendTimeouts + if c.outcome cfg = .sendTimeout then 1 else 0
  fragmented : st'.fragmented = st.fragmented + if c.Fragmented cfg then 1 else 0
  allDatagrams : stats'.datagramsSent = stats.datagramsSent + t.datagrams.length
  allErrors : stats'.sendErrors = stats.sendErrors + if c.outcome cfg = .sendError then 1 else 0
  allTimeouts : stats'.sendTimeouts = stats.sendTimeouts + if c.outcome cfg = .sendTimeout then 1 else 0

/-- The outcome of a message within the limits is that of the loop. -/
theorem outcome_within (within : ¬ OverLimits cfg c.data.length) {failed : Option SendOutcome}
    (h : failure c.sends 0 (fragmentsNeeded c.data.length cfg.fragmentPayload.toNat) = failed) :
    (c.outcome cfg = .sent ↔ failed = none) ∧ (c.outcome cfg = .sendError ↔ failed = some .error) ∧
      (c.outcome cfg = .sendTimeout ↔ failed = some .timeout) ∧ c.outcome cfg ≠ .oversize := by
  have cases := failure_cases c.sends 0 (fragmentsNeeded c.data.length cfg.fragmentPayload.toNat)
  rw [Call.outcome, if_neg within]
  rw [h] at cases ⊢
  rcases cases with rfl | rfl | rfl <;> decide

variable {b : Bridge} {src : BridgeSourceConfig} {st : BridgeSourceStats}

theorem transmit_booked (payload : b.cfg.fragmentPayload.toNat + kHeaderSize ≤ kMaxUdpPayload)
    (pos : 0 < b.cfg.fragmentPayload.toNat) (hsrc : b.cfg.sources[c.index]? = some src)
    (hst : b.sourceStats[c.index]? = some st) :
    ∃ b' st', transmit b c = .ok (b', emitted b.cfg src st.nextSequence c) ∧ b'.cfg = b.cfg ∧
      b'.sourceStats = b.sourceStats.set c.index st' ∧
      Booked b.cfg c (emitted b.cfg src st.nextSequence c) st st' b.stats b'.stats := by
  have hseq : b.nextSequence c.index = some st.nextSequence := congrArg (Option.map _) hst
  obtain ⟨b', ran, same, -⟩ := transmit_eq payload pos hsrc hseq
  generalize emitted b.cfg src st.nextSequence c = t at ran ⊢
  refine ⟨b', ?_⟩
  have ran' := ran
  simp only [transmit, hsrc, hst] at ran'
  by_cases beyond : OverLimits b.cfg c.data.length
  · rw [if_pos ((overLimits_iff pos payload _).2 beyond)] at ran'
    have outcome : c.outcome b.cfg = .oversize := if_pos beyond
    have whole : ¬ c.Fragmented b.cfg := fun h => h.1 beyond
    cases ran'
    refine ⟨_, ran, rfl, rfl, ?_⟩
    constructor <;> simp [outcome, whole]
  · have limits := (overLimits_iff pos payload c.data.length).not.2 beyond
    rw [if_neg limits] at ran'
    obtain ⟨⟨st', stats', out⟩, loop, last⟩ := bind_ok.1 ran'
    cases last
    have needed : fragmentCountFor c.data.length b.cfg.fragmentPayload.toNat =
        fragmentsNeeded c.data.length b.cfg.fragmentPayload.toNat :=
      fragmentCountFor_needed pos payload (by omega)
    have booked := sendFragments_booked _ loop
    rw [needed] at booked
    obtain ⟨sent, error, timeout, small⟩ := outcome_within beyond rfl
    have source := booked.source
    have pieces : c.Fragmented b.cfg ↔ 1 < fragmentsNeeded c.data.length b.cfg.fragmentPayload.toNat :=
      and_iff_right beyond
    refine ⟨st', ran, rfl, rfl, ?_⟩
    constructor
    · rw [source]; split <;> rfl
    · rw [source]; split <;> rfl
    · rw [booked.ok, Bool.eq_iff_iff, Option.isNone_iff_eq_none, decide_eq_true_iff, sent]
    · rw [source]; split <;> rfl
    · rw [source, if_neg small]; split <;> rfl
    · simp only [source, error]; split <;> rfl
    · simp only [source, timeout]; split <;> rfl
    · by_cases several : 1 < fragmentsNeeded c.data.length b.cfg.fragmentPayload.toNat
      · rw [source, if_pos several, if_pos (pieces.2 several)]
      · rw [source, if_neg several, if_neg (pieces.not.2 several)]
        rfl
    · exact booked.datagramsSent
    · simp only [booked.sendErrors, error]
    · simp only [booked.sendTimeouts, timeout]

end Transmit

/-- The counters of one source against the messages that it received and what `transmit` made of them. -/
structure Account (cfg : BridgeConfig) (src : BridgeSourceConfig) (calls : List Call) (ts : List Transmitted)
    (st : BridgeSourceStats) : Prop where
  messages : st.messages = calls.length
  nextSequence : st.nextSequence = UInt64.ofNat calls.length
  transmitted : ts = calls.mapIdx fun k c => emitted cfg src (UInt64.ofNat k) c
  ok : ts.map Transmitted.ok = calls.map fun c => decide (c.outcome cfg = .sent)
  oversize : st.oversize = calls.countP fun c => c.outcome cfg = .oversize
  sendErrors : st.sendErrors = calls.countP fun c => c.outcome cfg = .sendError
  sendTimeouts : st.sendTimeouts = calls.countP fun c => c.outcome cfg = .sendTimeout
  fragmented : st.fragmented = calls.countP fun c => c.Fragmented cfg

/-- The global counters are the sums over the sources. -/
structure Totals (b : Bridge) : Prop where
  datagrams : b.stats.datagramsSent = (b.sourceStats.map BridgeSourceStats.datagrams).sum
  sendErrors : b.stats.sendErrors = (b.sourceStats.map BridgeSourceStats.sendErrors).sum
  sendTimeouts : b.stats.sendTimeouts = (b.sourceStats.map BridgeSourceStats.sendTimeouts).sum

/-- All sources of the bridge, each with what it received and sent. -/
structure Accounts (cfg : BridgeConfig) (calls : Nat → List Call) (ts : Nat → List Transmitted) (b : Bridge) :
    Prop where
  same : b.cfg = cfg
  size : b.sourceStats.length = cfg.sources.length
  source : ∀ i src st, cfg.sources[i]? = some src → b.sourceStats[i]? = some st → Account cfg src (calls i) (ts i) st
  totals : Totals b

section Accounts

variable {cfg : BridgeConfig} {src : BridgeSourceConfig} {calls : Nat → List Call} {ts : Nat → List Transmitted}
  {b : Bridge} {index : Nat}

theorem Account.nil : Account cfg src [] [] {} := ⟨rfl, rfl, rfl, rfl, rfl, rfl, rfl, rfl⟩

theorem Account.snoc {calls : List Call} {ts : List Transmitted} {st st' : BridgeSourceStats} {c : Call}
    {stats stats' : BridgeStats} (acc : Account cfg src calls ts st)
    (booked : Booked cfg c (emitted cfg src st.nextSequence c) st st' stats stats') :
    Account cfg src (calls ++ [c]) (ts ++ [emitted cfg src st.nextSequence c]) st' := by
  constructor
  · rw [booked.messages, acc.messages, List.length_append, List.length_singleton]
  · rw [booked.nextSequence, acc.nextSequence, List.length_append, List.length_singleton, UInt64.ofNat_add]
    rfl
  · rw [List.mapIdx_append, ← acc.transmitted, acc.nextSequence]
    simp
  · rw [List.map_append, List.map_append, acc.ok, List.map_singleton, List.map_singleton, booked.ok]
  · rw [booked.oversize, acc.oversize, List.countP_append, List.countP_singleton]
    simp only [decide_eq_true_eq]
  · rw [booked.sendErrors, acc.sendErrors, List.countP_append, List.countP_singleton]
    simp only [decide_eq_true_eq]
  · rw [booked.sendTimeouts, acc.sendTimeouts, List.countP_append, List.countP_singleton]
    simp only [decide_eq_true_eq]
  · rw [booked.fragmented, acc.fragmented, List.countP_append, List.countP_singleton]
    simp only [decide_eq_true_eq]

/-- A counter of one source moves the sum by as much. -/
theorem sum_map_set {α : Type} {l : List α} {i : Nat} {a a' : α} {f : α → Nat} {k : Nat} (h : l[i]? = some a)
    (moved : f a' = f a + k) : ((l.set i a').map f).sum = (l.map f).sum + k := by
  induction l generalizing i with
  | nil => cases h
  | cons x l ih =>
    cases i with
    | zero =>
      cases h
      rw [List.set_cons_zero, List.map_cons, List.sum_cons, List.map_cons, List.sum_cons, moved]
      omega
    | succ i =>
      rw [List.set_cons_succ, List.map_cons, List.sum_cons, List.map_cons, List.sum_cons, ih h]
      omega

/-- One call of `transmit` books one message. -/
theorem Accounts.transmit {c : Call} (acc : Accounts cfg calls ts b)
    (payload : cfg.fragmentPayload.toNat + kHeaderSize ≤ kMaxUdpPayload) (pos : 0 < cfg.fragmentPayload.toNat)
    (known : c.index < cfg.sources.length) :
    ∃ b' t, b.transmit c = .ok (b', t) ∧
      Accounts cfg (Function.update calls c.index (calls c.index ++ [c]))
        (Function.update ts c.index (ts c.index ++ [t])) b' := by
  obtain ⟨rfl, size, source, totals⟩ := acc
  have lt : c.index < b.sourceStats.length := by omega
  have hsrc := List.getElem?_eq_getElem known
  have hst := List.getElem?_eq_getElem lt
  obtain ⟨b', st', ran, same, set, booked⟩ := transmit_booked payload pos hsrc hst
  refine ⟨b', _, ran, ?_⟩
  constructor
  · exact same
  · rw [set, List.length_set, size]
  · intro i src st hi here
    by_cases mine : i = c.index
    · subst mine
      rw [hsrc] at hi
      rw [set, List.getElem?_set_self lt] at here
      cases hi
      cases here
      rw [Function.update_self, Function.update_self]
      exact (source _ _ _ hsrc hst).snoc booked
    · rw [set, List.getElem?_set_ne (Ne.symm mine)] at here
      rw [Function.update_of_ne mine, Function.update_of_ne mine]
      exact source i src st hi here
  · constructor
    · rw [set, sum_map_set hst booked.datagrams, booked.allDatagrams, totals.datagrams]
    · rw [set, sum_map_set hst booked.sendErrors, booked.allErrors, totals.sendErrors]
    · rw [set, sum_map_set hst booked.sendTimeouts, booked.allTimeouts, totals.sendTimeouts]

/-- The other counters are not part of the balance. -/
theorem Accounts.note {f : BridgeSourceStats → BridgeSourceStats} (acc : Accounts cfg calls ts b)
    (only : ∀ st, { f st with multipart := st.multipart, recvErrors := st.recvErrors } = st) :
    Accounts cfg calls ts { b with sourceStats := b.sourceStats.modify index f } := by
  obtain ⟨rfl, size, source, totals⟩ := acc
  have same : ∀ {α : Type} (g : BridgeSourceStats → α), (∀ st, g (f st) = g st) →
      (b.sourceStats.modify index f).map g = b.sourceStats.map g := by
    intro α g keeps
    apply List.ext_getElem?
    intro i
    rw [List.getElem?_map, List.getElem?_map, List.getElem?_modify, Option.map_eq_map, Option.map_map]
    split
    · exact congrArg (Option.map · _) (funext keeps)
    · rfl
  constructor
  · rfl
  · exact (List.length_modify ..).trans size
  · intro i src st hi here
    rw [List.getElem?_modify, Option.map_eq_map, Option.map_eq_some_iff] at here
    obtain ⟨st₀, before, now⟩ := here
    have acc := source i src st₀ hi before
    split at now
    · rw [← only st₀] at acc
      rw [← now]
      exact ⟨acc.messages, acc.nextSequence, acc.transmitted, acc.ok, acc.oversize, acc.sendErrors, acc.sendTimeouts,
        acc.fragmented⟩
    · rw [← now]
      exact acc
  · constructor
    · exact totals.datagrams.trans
        (congrArg _ (same _ fun st => (congrArg BridgeSourceStats.datagrams (only st) :)).symm)
    · exact totals.sendErrors.trans
        (congrArg _ (same _ fun st => (congrArg BridgeSourceStats.sendErrors (only st) :)).symm)
    · exact totals.sendTimeouts.trans
        (congrArg _ (same _ fun st => (congrArg BridgeSourceStats.sendTimeouts (only st) :)).symm)

/-- Where the sources stay as they are, so does the balance. -/
theorem Accounts.congr {b' : Bridge} (acc : Accounts cfg calls ts b) (same : b'.cfg = b.cfg)
    (sources : b'.sourceStats = b.sourceStats) (datagrams : b'.stats.datagramsSent = b.stats.datagramsSent)
    (errors : b'.stats.sendErrors = b.stats.sendErrors) (timeouts : b'.stats.sendTimeouts = b.stats.sendTimeouts) :
    Accounts cfg calls ts b' := by
  constructor
  · exact same.trans acc.same
  · rw [sources]
    exact acc.size
  · rw [sources]
    exact acc.source
  · constructor
    · rw [datagrams, sources]
      exact acc.totals.datagrams
    · rw [errors, sources]
      exact acc.totals.sendErrors
    · rw [timeouts, sources]
      exact acc.totals.sendTimeouts

variable (payload : cfg.fragmentPayload.toNat + kHeaderSize ≤ kMaxUdpPayload) (pos : 0 < cfg.fragmentPayload.toNat)
  (known : index < cfg.sources.length)

include payload pos known

/-- One call of `service_source` books the messages that it receives. -/
theorem serviceLoop_booked (budget : Nat) :
    ∀ {b : Bridge} {calls : Nat → List Call} {ts : Nat → List Transmitted} (concat : Bytes) (q : List RecvAnswer),
      Accounts cfg calls ts b →
      ∃ r, serviceLoop index budget b concat q = .ok r ∧ r.rest = (receive index budget q).2 ∧
        Accounts cfg (Function.update calls index (calls index ++ (receive index budget q).1))
          (Function.update ts index (ts index ++ r.outs)) r.bridge := by
  have idle : ∀ {b : Bridge} {calls : Nat → List Call} {ts : Nat → List Transmitted}, Accounts cfg calls ts b →
      Accounts cfg (Function.update calls index (calls index ++ [])) (Function.update ts index (ts index ++ [])) b := by
    intro b calls ts acc
    rw [List.append_nil, List.append_nil, Function.update_eq_self, Function.update_eq_self]
    exact acc
  induction budget with
  | zero =>
    intro b calls ts concat q acc
    exact ⟨_, rfl, rfl, idle (acc.congr rfl rfl rfl rfl rfl)⟩
  | succ budget ih =>
    intro b calls ts concat q acc
    -- a message is booked by `transmit`, and then those behind it
    have message : ∀ {b : Bridge} (c : Call) (concat : Bytes) (q : List RecvAnswer), c.index = index →
        Accounts cfg calls ts b →
        ∃ r b' t, b.transmit c = .ok (b', t) ∧ serviceLoop index budget b' concat q = .ok r ∧
          r.rest = (receive index budget q).2 ∧
          Accounts cfg (Function.update calls index (calls index ++ c :: (receive index budget q).1))
            (Function.update ts index (ts index ++ t :: r.outs)) r.bridge := by
      rintro b c concat q rfl acc
      obtain ⟨b', t, ran, one⟩ := acc.transmit payload pos known
      obtain ⟨r, loop, rest, all⟩ := ih concat q one
      refine ⟨r, b', t, ran, loop, rest, ?_⟩
      simp only [Function.update_self, Function.update_idem, List.append_assoc, List.singleton_append] at all
      exact all
    cases q with
    | nil => exact ⟨_, rfl, rfl, idle acc⟩
    | cons a q =>
      cases a with
      | interrupted => exact ih concat q acc
      | error => exact ⟨_, rfl, rfl, idle (acc.note fun _ => rfl)⟩
      | frame data more timestampNs sends =>
        cases more with
        | false =>
          obtain ⟨r, b', t, ran, loop, rest, all⟩ := message ⟨index, data, 0, timestampNs, sends⟩ concat q rfl acc
          refine ⟨{ r with outs := t :: r.outs }, ?_, rest, all⟩
          exact bind_ok.2 ⟨_, ran, bind_ok.2 ⟨r, loop, rfl⟩⟩
        | true =>
          simp only [serviceLoop, receive, Bool.not_true, Bool.false_eq_true, if_false, if_true]
          rcases recvRest data q with ⟨_ | _, concat', q'⟩
          · exact ⟨_, rfl, rfl, idle (acc.note fun _ => rfl)⟩
          · obtain ⟨r, b', t, ran, loop, rest, all⟩ :=
              message ⟨index, concat', kFlagMultipart, timestampNs, sends⟩ concat' q' rfl
                (show Accounts cfg calls ts (b.noteMultipart index) from acc.note fun _ => rfl)
            refine ⟨{ r with outs := t :: r.outs }, ?_, rest, all⟩
            exact bind_ok.2 ⟨_, ran, bind_ok.2 ⟨r, loop, rfl⟩⟩

end Accounts

end Bridge

/-- All sources with their inboxes and streams. -/
structure Balanced (cfg : BridgeConfig) (boxes : Nat → Inbox) (ts : Nat → List Transmitted) (w : BridgeWorld) :
    Prop where
  accounts : Accounts cfg (fun i => (boxes i).calls) ts w.bridge
  queues : ∀ i < cfg.sources.length, w.sockets i = (boxes i).queue

section Runs

variable {cfg : BridgeConfig} {boxes boxes' : Nat → Inbox} {ts : Nat → List Transmitted} {w w' : BridgeWorld}

/-- Only the sources of the bridge count. -/
theorem Balanced.congr (bal : Balanced cfg boxes ts w) (same : ∀ i < cfg.sources.length, boxes' i = boxes i) :
    Balanced cfg boxes' ts w := by
  obtain ⟨acc, queues⟩ := bal
  constructor
  · refine ⟨acc.same, acc.size, ?_, acc.totals⟩
    intro i src st hi here
    have lt : i < cfg.sources.length := (List.getElem?_eq_some_iff.1 hi).1
    rw [same i lt]
    exact acc.source i src st hi here
  · intro i lt
    rw [same i lt]
    exact queues i lt

theorem inbox_snoc (index : Nat) (es : List BridgeEvent) (e : BridgeEvent) : inbox cfg index (es ++ [e]) =
    match laneView index e with
    | some v => (inbox cfg index es).step index cfg.maxMessagesPerPoll.toNat v
    | none => inbox cfg index es := by
  unfold inbox
  rw [List.filterMap_append, List.foldl_append]
  cases h : laneView index e <;> simp [h]

theorem stream_own (i j : Nat) (outs : List Transmitted) :
    stream j [outs.map fun out => (i, out)] = if j = i then outs else [] := by
  unfold stream
  rw [List.flatten_singleton]
  split
  next here =>
    have all : ((outs.map fun out => (i, out)).filter fun o => o.1 = j) = outs.map fun out => (i, out) := by
      apply List.filter_eq_self.2
      intro o mem
      obtain ⟨out, -, rfl⟩ := List.mem_map.1 mem
      exact decide_eq_true here.symm
    rw [all, List.map_map]
    exact List.map_id outs
  next other =>
    have others : ((outs.map fun out => (i, out)).filter fun o => o.1 = j) = [] := by
      apply List.filter_eq_nil_iff.2
      intro o mem
      obtain ⟨out, -, rfl⟩ := List.mem_map.1 mem
      simpa using Ne.symm other
    rw [others, List.map_nil]

variable (payload : cfg.fragmentPayload.toNat + kHeaderSize ≤ kMaxUdpPayload) (pos : 0 < cfg.fragmentPayload.toNat)

include payload pos

theorem serviceSource_balanced {i : Nat} (bal : Balanced cfg boxes ts w) (known : i < cfg.sources.length) :
    ∃ w' outs, w.serviceSource i = .ok (w', outs.map fun out => (i, out)) ∧
      Balanced cfg (Function.update boxes i ((boxes i).step i cfg.maxMessagesPerPoll.toNat .serve))
        (Function.update ts i (ts i ++ outs)) w' := by
  obtain ⟨acc, queues⟩ := bal
  obtain ⟨r, loop, rest, all⟩ :=
    serviceLoop_booked payload pos known cfg.maxMessagesPerPoll.toNat w.concat (w.sockets i) acc
  rw [queues i known] at rest all
  refine ⟨⟨r.bridge, r.concat, Function.update w.sockets i r.rest⟩, r.outs, ?_, ?_⟩
  · rw [← acc.same] at loop
    exact bind_ok.2 ⟨r, loop, rfl⟩
  · constructor
    · have calls := Function.comp_update Inbox.calls boxes i ((boxes i).step i cfg.maxMessagesPerPoll.toNat .serve)
      show Accounts cfg (Inbox.calls ∘ _) _ _
      rw [calls]
      exact all
    · intro j lt
      show Function.update w.sockets i r.rest j = (Function.update boxes i _ j).queue
      by_cases here : j = i
      · subst here
        rw [Function.update_self, Function.update_self, rest]
        rfl
      · rw [Function.update_of_ne here, Function.update_of_ne here]
        exact queues j lt

theorem serviceAll_balanced (readable : Nat → Bool) (is : List Nat) :
    ∀ {boxes : Nat → Inbox} {ts : Nat → List Transmitted} {w : BridgeWorld}, is.Nodup →
      (∀ i ∈ is, i < cfg.sources.length) → Balanced cfg boxes ts w →
      ∃ w' outs, BridgeWorld.serviceAll readable is w = .ok (w', outs) ∧
        Balanced cfg
          (fun i => if readable i ∧ i ∈ is then (boxes i).step i cfg.maxMessagesPerPoll.toNat .serve else boxes i)
          (fun i => ts i ++ stream i [outs]) w' := by
  induction is with
  | nil =>
    intro boxes ts w _ _ bal
    refine ⟨w, [], rfl, ?_⟩
    simpa [stream] using bal
  | cons i is ih =>
    intro boxes ts w nodup small bal
    obtain ⟨fresh, nodup⟩ := List.nodup_cons.1 nodup
    have small' : ∀ j ∈ is, j < cfg.sources.length := fun j hj => small j (List.mem_cons_of_mem _ hj)
    by_cases ready : readable i = true
    · obtain ⟨w₁, out, ran, bal₁⟩ := serviceSource_balanced payload pos bal (small i List.mem_cons_self)
      obtain ⟨w₂, outs, ran₂, bal₂⟩ := ih nodup small' bal₁
      refine ⟨w₂, (out.map fun out => (i, out)) ++ outs, ?_, ?_⟩
      · rw [BridgeWorld.serviceAll, if_pos ready]
        exact bind_ok.2 ⟨_, ran, bind_ok.2 ⟨_, ran₂, rfl⟩⟩
      · convert bal₂ using 1
        · funext j
          by_cases here : j = i
          · subst here
            simp [ready, fresh]
          · simp [here]
        · funext j
          rw [stream_append, stream_own]
          by_cases here : j = i
          · subst here
            simp
          · simp [here]
    · obtain ⟨w', outs, ran, bal'⟩ := ih nodup small' bal
      refine ⟨w', outs, ?_, ?_⟩
      · rw [BridgeWorld.serviceAll, if_neg ready]
        exact ran
      · convert bal' using 1
        funext j
        by_cases here : j = i
        · subst here
          simp [ready]
        · simp [here]

/-- One event of a run. -/
theorem step_balanced {es : List BridgeEvent} (e : BridgeEvent)
    (bal : Balanced cfg (fun i => inbox cfg i es) ts w) :
    ∃ w' out, w.step e = .ok (w', out) ∧
      Balanced cfg (fun i => inbox cfg i (es ++ [e])) (fun i => ts i ++ stream i [out]) w' := by
  have nothing : ∀ i, ts i ++ stream i [[]] = ts i := fun i => List.append_nil _
  cases e with
  | arrive j answers =>
    refine ⟨_, _, rfl, ?_⟩
    simp only [nothing]
    refine ⟨?_, ?_⟩
    · convert bal.accounts using 1
      funext i
      rw [inbox_snoc]
      by_cases here : j = i <;> simp [laneView, here, Inbox.step]
    · intro i lt
      rw [inbox_snoc]
      by_cases here : j = i
      · subst here
        simp [laneView, Inbox.step, bal.queues j lt]
      · simp [laneView, here, Ne.symm here, bal.queues i lt]
  | poll answer =>
    cases answer with
    | ready readable =>
      let stats := { w.bridge.stats with pollIterations := w.bridge.stats.pollIterations + 1 }
      have before : Balanced cfg (fun i => inbox cfg i es) ts { w with bridge := { w.bridge with stats := stats } } :=
        ⟨bal.accounts.congr rfl rfl rfl rfl rfl, bal.queues⟩
      obtain ⟨w', outs, ran, after⟩ := serviceAll_balanced payload pos readable (List.range cfg.sources.length)
        List.nodup_range (fun i hi => List.mem_range.1 hi) before
      refine ⟨w', outs, ?_, ?_⟩
      · rw [← bal.accounts.same] at ran
        exact bind_ok.2 ⟨_, bind_ok.2 ⟨_, ran, rfl⟩, rfl⟩
      · apply after.congr
        intro i lt
        rw [inbox_snoc]
        cases ready : readable i <;> simp [laneView, ready, lt]
    | interrupted | again | error | timeout =>
      refine ⟨_, _, rfl, ?_⟩
      simp only [nothing, inbox_snoc]
      exact ⟨bal.accounts.congr rfl rfl rfl rfl rfl, bal.queues⟩

theorem run_balanced (es : List BridgeEvent) :
    ∃ w outs, run BridgeWorld.step (.start cfg) es = .ok (w, outs) ∧
      Balanced cfg (fun i => inbox cfg i es) (fun i => stream i outs) w := by
  induction es using List.reverseRecOn with
  | nil =>
    refine ⟨_, _, rfl, ⟨rfl, List.length_map _, ?_, ?_⟩, fun _ _ => rfl⟩
    · intro i src st hi here
      have fresh : st = {} := by
        have mem := List.mem_of_getElem? here
        obtain ⟨_, -, eq⟩ := List.mem_map.1 mem
        exact eq.symm
      rw [fresh]
      exact .nil
    · constructor <;> simp [BridgeWorld.start, Bridge.start]
  | append_singleton es e ih =>
    obtain ⟨w, outs, ran, bal⟩ := ih
    obtain ⟨w', out, one, bal'⟩ := step_balanced payload pos e bal
    refine ⟨w', outs ++ [out], run_snoc.2 ⟨w, outs, out, ran, one, rfl⟩, ?_⟩
    simp only [stream_snoc]
    exact bal'

end Runs

section Law

/-- One source at any point of a run: the messages `calls` that it received, what `transmit` made of them and its
counters. -/
structure Conserved (cfg : BridgeConfig) (src : BridgeSourceConfig) (calls : List Call) (ts : List Transmitted)
    (st : BridgeSourceStats) : Prop where
  received : st.messages = calls.length
  numbered : st.nextSequence = UInt64.ofNat st.messages
  balance : st.messages = ts.countP Transmitted.ok + st.oversize + st.sendErrors + st.sendTimeouts
  /-- Every message has one transmission, and one outcome, which says where it is counted. -/
  once : ts.length = calls.length
  fate : ∀ k c t, calls[k]? = some c → ts[k]? = some t →
    Fate cfg src (UInt64.ofNat k) c t ∧ (t.ok = true ↔ c.outcome cfg = .sent)
  sent : ts.countP Transmitted.ok = calls.countP fun c => c.outcome cfg = .sent
  oversize : st.oversize = calls.countP fun c => c.outcome cfg = .oversize
  sendErrors : st.sendErrors = calls.countP fun c => c.outcome cfg = .sendError
  sendTimeouts : st.sendTimeouts = calls.countP fun c => c.outcome cfg = .sendTimeout
  fragmented : st.fragmented = calls.countP fun c => c.Fragmented cfg

variable {cfg : BridgeConfig} {src : BridgeSourceConfig} {calls : List Call} {ts : List Transmitted}
  {st : BridgeSourceStats}

/-- Every message has exactly one outcome. -/
theorem outcomes_partition (cfg : BridgeConfig) (calls : List Call) : calls.length =
    (calls.countP fun c => c.outcome cfg = .sent) + (calls.countP fun c => c.outcome cfg = .oversize) +
      (calls.countP fun c => c.outcome cfg = .sendError) + calls.countP fun c => c.outcome cfg = .sendTimeout := by
  induction calls with
  | nil => rfl
  | cons c calls ih =>
    simp only [List.countP_cons, List.length_cons, decide_eq_true_eq]
    cases c.outcome cfg <;> simp <;> omega

theorem Bridge.Account.conserved (acc : Account cfg src calls ts st) : Conserved cfg src calls ts st := by
  have sent : ts.countP Transmitted.ok = calls.countP fun c => c.outcome cfg = .sent := by
    have map : ∀ {α : Type} (f : α → Bool) (l : List α), l.countP f = (l.map f).countP id := fun f l => by
      rw [List.countP_map]
      rfl
    rw [map, acc.ok, ← map]
  constructor
  · exact acc.messages
  · rw [acc.messages, acc.nextSequence]
  · rw [acc.messages, sent, acc.oversize, acc.sendErrors, acc.sendTimeouts]
    exact outcomes_partition cfg calls
  · rw [acc.transmitted, List.length_mapIdx]
  · intro k c t hc ht
    have ok : t.ok = decide (c.outcome cfg = .sent) := by
      have := congrArg (·[k]?) acc.ok
      simpa [hc, ht] using this
    rw [acc.transmitted, List.getElem?_mapIdx, hc] at ht
    cases ht
    refine ⟨fate_of_emitted _ _, ?_⟩
    rw [ok, decide_eq_true_iff]
  · exact sent
  · exact acc.oversize
  · exact acc.sendErrors
  · exact acc.sendTimeouts
  · exact acc.fragmented

/-- The counters balance after every run of the bridge, whatever arrives at its sockets and whatever becomes of its
datagrams. Every run over a longer list of events passes through this point. -/
theorem bridge_counters_conserved {env : NetEnv} {file : ConfigFile} {cfg : BridgeConfig}
    (ok : buildBridgeConfig env file = (cfg, [])) (es : List BridgeEvent) :
    ∃ w outs, run BridgeWorld.step (.start cfg) es = .ok (w, outs) ∧
      (∀ index src, cfg.sources[index]? = some src →
        ∃ st, w.bridge.sourceStats[index]? = some st ∧ w.sockets index = (inbox cfg index es).queue ∧
          Conserved cfg src (inbox cfg index es).calls (stream index outs) st) ∧
      Totals w.bridge := by
  have size := accepted_datagram_size ok
  have chunk := accepted_payload ok
  have payload : cfg.fragmentPayload.toNat + kHeaderSize ≤ kMaxUdpPayload := by omega
  have pos : 0 < cfg.fragmentPayload.toNat := by omega
  obtain ⟨w, outs, ran, bal⟩ := run_balanced payload pos es
  refine ⟨w, outs, ran, ?_, bal.accounts.totals⟩
  intro index src hsrc
  have known : index < cfg.sources.length := (List.getElem?_eq_some_iff.1 hsrc).1
  have lt : index < w.bridge.sourceStats.length := by
    rw [bal.accounts.size]
    exact known
  have hst := List.getElem?_eq_getElem lt
  exact ⟨_, hst, bal.queues index known, (bal.accounts.source index src _ hsrc hst).conserved⟩

/-- Two messages that are sent, one of them in two pieces, one that is not, and a receive error. -/
theorem bridge_counters_conserved_lab : ∃ w outs, run BridgeWorld.step (.start labCfg) labArrivals = .ok (w, outs) ∧
    (∃ src st, labCfg.sources[0]? = some src ∧ w.bridge.sourceStats[0]? = some st ∧
      Conserved labCfg src (inbox labCfg 0 labArrivals).calls (stream 0 outs) st) ∧
    Totals w.bridge := by
  obtain ⟨w, outs, ran, sources, totals⟩ := bridge_counters_conserved labFile_accepted labArrivals
  have one : 0 < labCfg.sources.length := by decide +kernel
  obtain ⟨st, hst, -, holds⟩ := sources 0 _ (List.getElem?_eq_getElem one)
  exact ⟨w, outs, ran, ⟨_, st, List.getElem?_eq_getElem one, hst, holds⟩, totals⟩

end Law

end IpcRelay
