import IpcRelay.Bridge.Bridge

/-!
# Serving the sources (`Bridge::poll_once`, `Bridge::service_source`)

`serviceSource` takes messages from the socket of one source until it is empty,
fails or the batch is full, and calls `transmit` for each. `messages` says what
complete messages a list of answers holds, without the loop: `serviceLoop_spec`
is that one call transmits the messages of the answers it takes, each with the
next sequence number of the source.
-/

namespace IpcRelay

open Wire

/-- What the next `zmq_msg_recv` on a socket answers: a frame and whether more frames follow, or
`errno`. With the first frame of a message come the clock and what becomes of the datagrams of the
message. An empty list of answers is `EAGAIN`. -/
inductive RecvAnswer where
  | frame (data : Bytes) (more : Bool) (timestampNs : UInt64) (sends : Nat → SendOutcome)
  | interrupted
  | error

/-- The result of `zmq_poll`: `errno`, 0, or the sources with `ZMQ_POLLIN`. -/
inductive PollAnswer where
  | interrupted
  | again
  | error
  | timeout
  | ready (readable : Nat → Bool)

/-- The bridge with `concat_`, the buffer that all sources share, and what the sockets hold. -/
structure BridgeWorld where
  bridge : Bridge
  concat : Bytes := []
  sockets : Nat → List RecvAnswer := fun _ => []

namespace Bridge

def noteRecvError (b : Bridge) (index : Nat) : Bridge :=
  { b with sourceStats := b.sourceStats.modify index fun st => { st with recvErrors := st.recvErrors + 1 } }

def noteMultipart (b : Bridge) (index : Nat) : Bridge :=
  { b with sourceStats := b.sourceStats.modify index fun st => { st with multipart := st.multipart + 1 } }

/-- The loop over the frames after the first one: whether all came, `concat_` and what is left. -/
def recvRest (concat : Bytes) : List RecvAnswer → Bool × Bytes × List RecvAnswer
  | [] => (false, concat, [])
  | .interrupted :: q => recvRest concat q
  | .error :: q => (false, concat, q)
  | .frame data more _ _ :: q => if more then recvRest (concat ++ data) q else (true, concat ++ data, q)

/-- What `service_source` leaves, with what its calls of `transmit` returned and sent. -/
structure Served where
  bridge : Bridge
  concat : Bytes
  rest : List RecvAnswer
  outs : List Transmitted := []

/-- The loop of `service_source`, with `budget` rounds to go. -/
def serviceLoop (index : Nat) : Nat → Bridge → Bytes → List RecvAnswer → Exec Served
  | 0, b, concat, q =>
    .ok { bridge := { b with stats := { b.stats with maxBatchHits := b.stats.maxBatchHits + 1 } }, concat := concat,
          rest := q }
  | _ + 1, b, concat, [] => .ok { bridge := b, concat := concat, rest := [] }
  | budget + 1, b, concat, .interrupted :: q => serviceLoop index budget b concat q
  | _ + 1, b, concat, .error :: q => .ok { bridge := b.noteRecvError index, concat := concat, rest := q }
  | budget + 1, b, concat, .frame data more timestampNs sends :: q =>
    if !more then do
      let (b, out) ← b.transmit ⟨index, data, 0, timestampNs, sends⟩
      let r ← serviceLoop index budget b concat q
      .ok { r with outs := out :: r.outs }
    else
      match recvRest data q with
      | (false, concat, q) => .ok { bridge := b.noteRecvError index, concat := concat, rest := q }
      | (true, concat, q) => do
        let b := b.noteMultipart index
        let (b, out) ← b.transmit ⟨index, concat, kFlagMultipart, timestampNs, sends⟩
        let r ← serviceLoop index budget b concat q
        .ok { r with outs := out :: r.outs }

end Bridge

namespace BridgeWorld

open Bridge

def start (cfg : BridgeConfig) : BridgeWorld where
  bridge := .start cfg

/-- `service_source`. -/
def serviceSource (w : BridgeWorld) (index : Nat) : Exec (BridgeWorld × List (Nat × Transmitted)) := do
  let r ← serviceLoop index w.bridge.cfg.maxMessagesPerPoll.toNat w.bridge w.concat (w.sockets index)
  .ok ({ bridge := r.bridge, concat := r.concat, sockets := Function.update w.sockets index r.rest },
    r.outs.map fun out => (index, out))

/-- The loop over `poll_items_`. -/
def serviceAll (readable : Nat → Bool) : List Nat → BridgeWorld → Exec (BridgeWorld × List (Nat × Transmitted))
  | [], w => .ok (w, [])
  | i :: is, w =>
    if readable i then do
      let (w, out) ← w.serviceSource i
      let (w, outs) ← serviceAll readable is w
      .ok (w, out ++ outs)
    else serviceAll readable is w

/-- `poll_once`, with its return value. -/
def pollOnce (w : BridgeWorld) (answer : PollAnswer) : Exec (BridgeWorld × Bool × List (Nat × Transmitted)) := do
  let stats := { w.bridge.stats with pollIterations := w.bridge.stats.pollIterations + 1 }
  let failed := { stats with pollErrors := stats.pollErrors + 1 }
  match answer with
  | .interrupted => .ok ({ w with bridge := { w.bridge with stats := stats } }, true, [])
  | .again => .ok ({ w with bridge := { w.bridge with stats := failed } }, true, [])
  | .error => .ok ({ w with bridge := { w.bridge with stats := failed } }, false, [])
  | .timeout => .ok ({ w with bridge := { w.bridge with stats := stats } }, true, [])
  | .ready readable =>
    let (w, outs) ← serviceAll readable (List.range w.bridge.cfg.sources.length)
      { w with bridge := { w.bridge with stats := stats } }
    .ok (w, true, outs)

end BridgeWorld

/-- Every multipart message among the answers is there with all its frames; `inside` says that they begin within
one. -/
def Whole : Bool → List RecvAnswer → Prop
  | inside, [] => inside = false
  | _, .frame _ more _ _ :: q => Whole more q
  | inside, .interrupted :: q => Whole inside q
  | inside, .error :: q => inside = false ∧ Whole false q

/-- The complete messages among the answers of a source, as they are to be transmitted; `part` is the message
that they begin within. -/
def messages (index : Nat) : Option Bridge.Call → List RecvAnswer → List Bridge.Call
  | _, [] => []
  | none, .frame data more timestampNs sends :: q =>
    if more then messages index (some ⟨index, data, kFlagMultipart, timestampNs, sends⟩) q
    else ⟨index, data, 0, timestampNs, sends⟩ :: messages index none q
  | some c, .frame data more _ _ :: q =>
    if more then messages index (some { c with data := c.data ++ data }) q
    else { c with data := c.data ++ data } :: messages index none q
  | part, .interrupted :: q => messages index part q
  | part, .error :: q => messages index part q

/-- What is left behind the message that the answers begin within. -/
def afterMessage : List RecvAnswer → List RecvAnswer
  | [] => []
  | .frame _ more _ _ :: q => if more then afterMessage q else q
  | _ :: q => afterMessage q

/-- What one call of `service_source` leaves. -/
def leftOver : Nat → List RecvAnswer → List RecvAnswer
  | 0, q => q
  | _ + 1, [] => []
  | budget + 1, .interrupted :: q => leftOver budget q
  | _ + 1, .error :: q => q
  | budget + 1, .frame _ more _ _ :: q => leftOver budget (if more then afterMessage q else q)

section Answers

variable {a q : List RecvAnswer} {inside : Bool} {part : Option Bridge.Call} {index : Nat}

theorem Whole.append (whole : Whole inside a) : Whole inside (a ++ q) ↔ Whole false q := by
  induction a generalizing inside with
  | nil => cases whole; rfl
  | cons x a ih =>
    cases x with
    | frame data more timestampNs sends => exact ih whole
    | interrupted => exact ih whole
    | error =>
      obtain ⟨rfl, whole⟩ := whole
      exact (and_iff_right rfl).trans (ih whole)

/-- Whole messages do not run into the next answers. -/
theorem messages_append (whole : Whole part.isSome a) :
    messages index part (a ++ q) = messages index part a ++ messages index none q := by
  induction a generalizing part with
  | nil =>
    cases part with
    | none => rfl
    | some c => cases whole
  | cons x a ih =>
    cases x with
    | interrupted => exact ih whole
    | error =>
      obtain ⟨out, whole⟩ := whole
      exact ih (by rw [out]; exact whole)
    | frame data more timestampNs sends =>
      cases part <;> cases more <;> simp only [List.cons_append, messages, Bool.false_eq_true, if_false, if_true]
      · rw [ih whole]
      · exact ih whole
      · rw [ih whole]
      · exact ih whole

/-- A multipart message is put together from its frames in order. -/
theorem recvRest_spec (index : Nat) (concat : Bytes) (whole : Whole true q) :
    ∃ used data, q = used ++ afterMessage q ∧ Whole true used ∧
      Bridge.recvRest concat q = (true, concat ++ data, afterMessage q) ∧
      ∀ c, messages index (some c) used = [{ c with data := c.data ++ data }] := by
  induction q generalizing concat with
  | nil => cases whole
  | cons x q ih =>
    cases x with
    | error => exact absurd whole.1 (by decide)
    | interrupted =>
      obtain ⟨used, data, split, whole', ran, one⟩ := ih concat whole
      exact ⟨.interrupted :: used, data, congrArg _ split, whole', ran, one⟩
    | frame data more timestampNs sends =>
      cases more with
      | false => exact ⟨[.frame data false timestampNs sends], data, rfl, rfl, rfl, fun _ => rfl⟩
      | true =>
        obtain ⟨used, more, split, whole', ran, one⟩ := ih (concat ++ data) whole
        refine ⟨.frame data true timestampNs sends :: used, data ++ more, congrArg _ split, whole', ?_, ?_⟩
        · rw [← List.append_assoc]
          exact ran
        · intro c
          have rest := one { c with data := c.data ++ data }
          rw [List.append_assoc] at rest
          exact rest

theorem afterMessage_suffix (q : List RecvAnswer) : afterMessage q <:+ q := by
  induction q with
  | nil => exact List.suffix_refl _
  | cons x q ih =>
    cases x with
    | interrupted | error => exact ih.trans (List.suffix_cons _ _)
    | frame data more timestampNs sends =>
      cases more
      · exact List.suffix_cons _ _
      · exact ih.trans (List.suffix_cons _ _)

theorem leftOver_suffix (budget : Nat) (q : List RecvAnswer) : leftOver budget q <:+ q := by
  induction budget generalizing q with
  | zero => exact List.suffix_refl _
  | succ budget ih =>
    cases q with
    | nil => exact List.suffix_refl _
    | cons x q =>
      cases x with
      | interrupted => exact (ih q).trans (List.suffix_cons _ _)
      | error => exact List.suffix_cons _ _
      | frame data more timestampNs sends =>
        cases more
        · exact (ih q).trans (List.suffix_cons _ _)
        · exact (ih _).trans ((afterMessage_suffix q).trans (List.suffix_cons _ _))

end Answers

namespace Bridge

section Loop

variable {b : Bridge} {index : Nat} {src : BridgeSourceConfig}

/-- Statistics other than the counter do not change what is sent next. -/
theorem nextSequence_modify (f : BridgeSourceStats → BridgeSourceStats)
    (keeps : ∀ st, (f st).nextSequence = st.nextSequence) (j : Nat) :
    nextSequence { b with sourceStats := b.sourceStats.modify index f } j = b.nextSequence j := by
  unfold nextSequence
  rw [List.getElem?_modify]
  split
  · cases b.sourceStats[j]? with
    | none => rfl
    | some st => exact congrArg some (keeps st)
  · simp

/-- One call takes answers from the queue, as many as `leftOver` says, and transmits the messages among them. -/
structure Serves (index : Nat) (b : Bridge) (src : BridgeSourceConfig) (seq : UInt64) (budget : Nat)
    (q used : List RecvAnswer) (r : Served) : Prop where
  split : q = used ++ r.rest
  rest : r.rest = leftOver budget q
  whole : Whole false used
  cfg : r.bridge.cfg = b.cfg
  outs : r.outs = (messages index none used).mapIdx fun k c => emitted b.cfg src (seq + UInt64.ofNat k) c
  numbers : ∀ j, r.bridge.nextSequence j =
    if j = index then some (seq + UInt64.ofNat r.outs.length) else b.nextSequence j

/-- A call that takes no message. -/
theorem Serves.idle {seq : UInt64} {budget : Nat} {q used : List RecvAnswer} {r : Served}
    (hseq : b.nextSequence index = some seq) (split : q = used ++ r.rest) (rest : r.rest = leftOver budget q)
    (whole : Whole false used) (cfg : r.bridge.cfg = b.cfg) (silent : messages index none used = [])
    (outs : r.outs = []) (same : ∀ j, r.bridge.nextSequence j = b.nextSequence j) :
    Serves index b src seq budget q used r := by
  constructor
  · exact split
  · exact rest
  · exact whole
  · exact cfg
  · rw [silent, outs, List.mapIdx_nil]
  · intro j
    rw [same j, outs]
    split
    next here =>
      subst here
      rw [hseq]
      simp
    next => rfl

/-- A call that takes a message first. -/
theorem Serves.cons {b' b'' : Bridge} {seq : UInt64} {budget budget' : Nat} {q used rest : List RecvAnswer}
    {r : Served} {c : Call} (first : List RecvAnswer) (after : Serves index b'' src (seq + 1) budget rest used r) (cfg : b'.cfg = b.cfg)
    (cfg' : b''.cfg = b'.cfg) (queue : q = first ++ rest) (left : leftOver budget' q = leftOver budget rest)
    (whole : Whole false first) (one : messages index none first = [c])
    (numbers : ∀ j, b''.nextSequence j = if j = index then some (seq + 1) else b'.nextSequence j)
    (same : ∀ j, b'.nextSequence j = b.nextSequence j) :
    Serves index b src seq budget' q (first ++ used) { r with outs := emitted b.cfg src seq c :: r.outs } := by
  constructor
  · rw [List.append_assoc, ← after.split, queue]
  · rw [left]
    exact after.rest
  · exact whole.append.2 after.whole
  · rw [← cfg, ← cfg']
    exact after.cfg
  · have shift : ∀ k, seq + 1 + UInt64.ofNat k = seq + UInt64.ofNat (k + 1) := by
      intro k
      rw [UInt64.ofNat_add, UInt64.add_assoc, UInt64.add_comm 1]
      rfl
    rw [messages_append (show Whole (Option.isSome none) first from whole), one, List.cons_append, List.nil_append, List.mapIdx_cons, after.outs, cfg', cfg]
    simp [shift]
  · intro j
    rw [after.numbers j, numbers j, same j]
    split
    · simp only [List.length_cons]
      rw [UInt64.ofNat_add, UInt64.add_assoc, UInt64.add_comm 1]
      rfl
    · rfl

theorem serviceLoop_spec (budget : Nat) :
    ∀ (b : Bridge) (seq : UInt64) (concat : Bytes) (q : List RecvAnswer),
      b.cfg.fragmentPayload.toNat + kHeaderSize ≤ kMaxUdpPayload → 0 < b.cfg.fragmentPayload.toNat →
      b.cfg.sources[index]? = some src → b.nextSequence index = some seq → Whole false q →
      ∃ r used, serviceLoop index budget b concat q = .ok r ∧ Serves index b src seq budget q used r := by
  induction budget with
  | zero =>
    intro b seq concat q _ _ _ hseq whole
    exact ⟨_, [], rfl, .idle hseq rfl rfl rfl rfl rfl rfl fun _ => rfl⟩
  | succ budget ih =>
    intro b seq concat q payload pos hsrc hseq whole
    cases q with
    | nil => exact ⟨_, [], rfl, .idle hseq rfl rfl rfl rfl rfl rfl fun _ => rfl⟩
    | cons x q =>
      cases x with
      | interrupted =>
        obtain ⟨r, used, ran, serves⟩ := ih b seq concat q payload pos hsrc hseq whole
        refine ⟨r, .interrupted :: used, ran, ?_⟩
        exact ⟨congrArg _ serves.split, serves.rest, serves.whole, serves.cfg, serves.outs, serves.numbers⟩
      | error =>
        have same : ∀ j, (b.noteRecvError index).nextSequence j = b.nextSequence j :=
          nextSequence_modify _ fun _ => rfl
        exact ⟨_, [.error], rfl, .idle hseq rfl rfl ⟨rfl, rfl⟩ rfl rfl rfl same⟩
      | frame data more timestampNs sends =>
        cases more with
        | false =>
          obtain ⟨b', ran, cfg, numbers⟩ :=
            transmit_eq (c := ⟨index, data, 0, timestampNs, sends⟩) payload pos hsrc hseq
          obtain ⟨r, used, rest, serves⟩ := ih b' (seq + 1) concat q (by rw [cfg]; exact payload)
            (by rw [cfg]; exact pos) (by rw [cfg]; exact hsrc) (by rw [numbers, if_pos rfl]) whole
          refine ⟨_, _, ?_, serves.cons [.frame data false timestampNs sends] (c := ⟨index, data, 0, timestampNs, sends⟩)
            (show b.cfg = b.cfg from rfl) cfg rfl rfl rfl rfl numbers fun _ => rfl⟩
          simp only [serviceLoop, Bool.not_false, if_true, ran, rest, bind, Except.bind]
        | true =>
          obtain ⟨frames, tail, split, whole', all, one⟩ := recvRest_spec index data whole
          have same : ∀ j, (b.noteMultipart index).nextSequence j = b.nextSequence j :=
            nextSequence_modify _ fun _ => rfl
          obtain ⟨b', ran, cfg, numbers⟩ :=
            transmit_eq (b := b.noteMultipart index) (c := ⟨index, data ++ tail, kFlagMultipart, timestampNs, sends⟩)
              payload pos hsrc ((same index).trans hseq)
          have behind : Whole false (afterMessage q) := by
            rw [split] at whole
            exact whole'.append.1 whole
          obtain ⟨r, used, rest, serves⟩ := ih b' (seq + 1) (data ++ tail) (afterMessage q)
            (by rw [cfg]; exact payload) (by rw [cfg]; exact pos) (by rw [cfg]; exact hsrc)
            (by rw [numbers, if_pos rfl]) behind
          refine ⟨_, _, ?_, serves.cons (.frame data true timestampNs sends :: frames)
            (show (b.noteMultipart index).cfg = b.cfg from rfl) cfg (congrArg _ split) rfl whole'
            (one ⟨index, data, kFlagMultipart, timestampNs, sends⟩) numbers same⟩
          simp only [serviceLoop, Bool.not_true, Bool.false_eq_true, if_false, all, ran, rest, bind, Except.bind]
          rfl

end Loop

end Bridge

end IpcRelay
