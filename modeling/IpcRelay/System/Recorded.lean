import IpcRelay.Bridge.OutputStream
import IpcRelay.Receiver.Conservation
import IpcRelay.Receiver.PollLoop
import IpcRelay.System.EndToEnd

/-!
# From the publishers to the capture file

The bridge takes the messages of its sources, the network does with the datagrams
what it likes, the receiver program reassembles and records, and a reader reads the
file. `capture_faithful`: whatever it reads is a message that a source was given, with
its number among the messages of that source, whatever part of the file it has.
-/

namespace IpcRelay

open Wire Machine Bridge

section Places

variable {α : Type} {l : List α} {P : α → Bool} {a : α}

/-- An element that is kept comes after the kept ones before it. -/
theorem getElem?_filter {p : Nat} (here : l[p]? = some a) (kept : P a = true) :
    (l.filter P)[(l.take p).countP P]? = some a := by
  induction l generalizing p with
  | nil => simp at here
  | cons b l ih =>
    cases p with
    | zero =>
      obtain rfl : b = a := by simpa using here
      simp [kept]
    | succ p =>
      have rest := ih (p := p) (by simpa using here)
      rw [List.take_succ_cons, List.countP_cons, List.filter_cons]
      split <;> simpa using rest

theorem exists_of_filter {k : Nat} (here : (l.filter P)[k]? = some a) :
    ∃ p, l[p]? = some a ∧ (l.take p).countP P = k := by
  induction l generalizing k with
  | nil => simp at here
  | cons b l ih =>
    rw [List.filter_cons] at here
    split at here
    next kept =>
      cases k with
      | zero => exact ⟨0, by simpa using here, rfl⟩
      | succ k =>
        obtain ⟨p, at_p, count⟩ := ih (k := k) (by simpa using here)
        exact ⟨p + 1, by simpa using at_p, by simp [kept, count]⟩
    next dropped =>
      obtain ⟨p, at_p, count⟩ := ih here
      exact ⟨p + 1, by simpa using at_p, by simp [dropped, count]⟩

end Places

section Streams

variable {cfg : BridgeConfig} {streams : Nat → List Call}

/-- The messages of all sources, one source after the other. -/
def allCalls (cfg : BridgeConfig) (streams : Nat → List Call) : List Call :=
  (List.range cfg.sources.length).flatMap streams

/-- Each stream is that of its source. -/
def Sorted (streams : Nat → List Call) : Prop := ∀ i, ∀ c ∈ streams i, c.index = i

theorem flatMap_only (l : List Call) (i n : Nat) :
    ((List.range n).flatMap fun j => if j = i then l else []) = if i < n then l else [] := by
  induction n with
  | zero => simp
  | succ n ih =>
    rw [List.range_succ, List.flatMap_append, ih, List.flatMap_singleton]
    rcases Nat.lt_trichotomy i n with lt | rfl | gt
    · rw [if_pos lt, if_neg (by omega), if_pos (by omega), List.append_nil]
    · rw [if_neg (by omega), if_pos rfl, if_pos (by omega), List.nil_append]
    · rw [if_neg (by omega), if_neg (by omega), if_neg (by omega), List.append_nil]

theorem filter_allCalls (sorted : Sorted streams) (i : Nat) :
    (allCalls cfg streams).filter (fun c => c.index = i) = if i < cfg.sources.length then streams i else [] := by
  rw [allCalls, List.filter_flatMap, ← flatMap_only]
  congr 1
  funext j
  split
  next here =>
    subst here
    exact List.filter_eq_self.2 fun c mem => by simpa using sorted j c mem
  next other =>
    refine List.filter_eq_nil_iff.2 fun c mem => ?_
    have index := sorted j c mem
    simpa [index] using other

theorem count_allCalls (sorted : Sorted streams) (short : ∀ i, (streams i).length ≤ 2 ^ 64) (i : Nat) :
    ((allCalls cfg streams).countP fun c => c.index = i) ≤ 2 ^ 64 := by
  rw [List.countP_eq_length_filter, filter_allCalls sorted]
  split
  · exact short i
  · exact Nat.zero_le _

/-- A call is in the stream of its source, in the place that its number tells. -/
theorem stream_of_call (sorted : Sorted streams) {p : Nat} {c : Call} {src : BridgeSourceConfig}
    (hc : (allCalls cfg streams)[p]? = some c) (hsrc : cfg.sources[c.index]? = some src) :
    (streams c.index)[callsBefore (allCalls cfg streams) p c.index]? = some c := by
  have lt : c.index < cfg.sources.length := (List.getElem?_eq_some_iff.1 hsrc).1
  have here := getElem?_filter (P := fun c' => c'.index = c.index) hc (by simp)
  rw [filter_allCalls sorted, if_pos lt] at here
  exact here

/-- What a source emits for a message of its stream. -/
theorem emitted_of_stream (sorted : Sorted streams) {i k : Nat} {c : Call} {src : BridgeSourceConfig} {d : Bytes}
    (hsrc : cfg.sources[i]? = some src) (hc : (streams i)[k]? = some c)
    (hd : d ∈ (emitted cfg src (UInt64.ofNat k) c).datagrams) :
    ∃ p m, Emitted cfg (allCalls cfg streams) p m d := by
  have lt : i < cfg.sources.length := (List.getElem?_eq_some_iff.1 hsrc).1
  have index : c.index = i := sorted i c (List.mem_of_getElem? hc)
  have kept : ((allCalls cfg streams).filter fun c => c.index = i)[k]? = some c := by
    rw [filter_allCalls sorted, if_pos lt]
    exact hc
  obtain ⟨p, at_p, count⟩ := exists_of_filter kept
  unfold emitted at hd
  cases out : c.outgoing cfg src (UInt64.ofNat k) with
  | none =>
    rw [out] at hd
    cases hd
  | some m =>
    rw [out] at hd
    obtain ⟨j, mem, rfl⟩ := List.mem_map.1 hd
    have within := List.mem_range.1 ((List.takeWhile_prefix _).subset mem)
    refine ⟨p, m, c, src, at_p, by rw [index]; exact hsrc, ?_, j, within, rfl⟩
    rw [index, callsBefore, count]
    exact splits_of_outgoing out

theorem messages_index {i : Nat} {c : Call} (q : List RecvAnswer) : ∀ {part : Option Call},
    (∀ c ∈ part, c.index = i) → c ∈ messages i part q → c.index = i := by
  induction q with
  | nil =>
    intro part _ mem
    cases part <;> cases mem
  | cons a q ih =>
    intro part own mem
    cases a with
    | interrupted => cases part <;> exact ih own mem
    | error => cases part <;> exact ih own mem
    | frame data more timestampNs sends =>
      cases part with
      | none =>
        unfold messages at mem
        split at mem
        · exact ih (by simp) mem
        · rcases List.mem_cons.1 mem with rfl | mem
          · rfl
          · exact ih (by simp) mem
      | some c' =>
        have index := own c' rfl
        unfold messages at mem
        split at mem
        · exact ih (by simpa using index) mem
        · rcases List.mem_cons.1 mem with rfl | mem
          · exact index
          · exact ih (by simp) mem

/-- The messages that the sources of the bridge have sent so far. -/
def sentStreams (cfg : BridgeConfig) (es : List BridgeEvent) (i : Nat) : List Call :=
  if i < cfg.sources.length then messages i none (lane cfg i es).taken else []

theorem sentStreams_sorted (cfg : BridgeConfig) (es : List BridgeEvent) : Sorted (sentStreams cfg es) := by
  intro i c mem
  unfold sentStreams at mem
  split at mem
  · exact messages_index _ (by simp) mem
  · cases mem

end Streams

namespace Receiver

open Reassembler

section Store

variable {cfg : ReceiverConfig} {s s' : Receiver}

/-- What an event does to the store: one call of the reassembler for an accepted datagram and for a sweep. -/
inductive StoreStep (s : Receiver) (e : Event) (r : Reaction) (u : Reassembler) : Prop
  | add {f : Fragment} {now : UInt64} {io : Capture.Stdio} {o : AddOutcome} (event : e = .datagram f.datagram now io)
      (message : r.message = if o.result = .complete then some o.out else none)
      (call : Reassembler.step s.cfg.reassemblerConfig s.reassembler (.add f now) = .ok (u, .added o))
  | sweep {now : UInt64} {o : ExpireOutcome} (message : r.message = none)
      (call : Reassembler.step s.cfg.reassemblerConfig s.reassembler (.expire now) = .ok (u, .expired o))
  | none (message : r.message = none) (same : u = s.reassembler)

theorem storeStep_of_step {e : Event} {r : Reaction} (one : step s e = .ok (s', r)) :
    StoreStep s e r s'.reassembler := by
  cases known : e.received with
  | none =>
    obtain ⟨kept, silent, -⟩ := silent_of_step known one
    exact .none (Reaction.message_of_silent silent) (congrArg Front.reassembler kept)
  | some w =>
    cases e with
    | init => cases known
    | command => cases known
    | flush => cases known
    | close => cases known
    | sweep now =>
      obtain ⟨received, -, -⟩ := receive_of_step known one
      have eq := Except.ok.inj one
      obtain rfl : (s.sweepReassembly now).1 = s' := congrArg Prod.fst eq
      obtain rfl : .swept (s.sweepReassembly now).2 = r := congrArg Prod.snd eq
      have after : (s.sweepReassembly now).1.front =
          ⟨(expire s.cfg.reassemblerConfig s.reassembler now).1, s.sequences⟩ := front_noteExpired_all _ _
      have call : Reassembler.step s.cfg.reassemblerConfig s.reassembler (.expire now) =
          .ok ((s.sweepReassembly now).1.reassembler, .expired (expire s.cfg.reassemblerConfig s.reassembler now).2) := by
        rw [show (s.sweepReassembly now).1.reassembler = _ from congrArg Front.reassembler after]
        rfl
      exact .sweep rfl call
    | datagram data now io =>
      rcases Fragment.accepted_or_rejected data with ⟨f, rfl⟩ | ⟨p, parse, bad⟩
      · obtain ⟨u, o, added, rfl, settled⟩ := handleDatagram_inv one
        have after := (front_settle settled).trans (front_noteSequence _ _ _)
        refine .add rfl rfl ?_
        rw [show s'.reassembler = u from congrArg Front.reassembler after]
        exact bind_ok.2 ⟨(u, o), added, rfl⟩
      · simp only [step, handleDatagram, parse, bind, Except.bind, bad, ne_eq, not_false_eq_true, if_true] at one
        cases one
        exact .none rfl (congrArg Front.reassembler (front_noteMalformed s p.err.toText (blamed p)))

/-- The store of a run, with the calls that completed its messages. -/
theorem store_of_run (sound : cfg.Sound) {es : List Event} {rs : List Reaction}
    (ran : run step (create cfg) es = .ok (s, rs)) :
    ∃ h, Trace (Reassembler.step cfg.reassemblerConfig) {} h s.reassembler ∧
      (∀ x ∈ h, ∀ g t, x.1 = Op.add g t → ∃ now io, .datagram g.datagram now io ∈ es) ∧
      ∀ m ∈ messages rs, ∃ (i : Nat) (f : Fragment) (now : UInt64) (o : AddOutcome),
        h[i]? = some (Reassembler.Op.add f now, Reassembler.Outcome.added o) ∧ o.result = .complete ∧ o.out = m := by
  induction es using List.reverseRecOn generalizing s rs with
  | nil =>
    cases ran
    exact ⟨[], .nil, by simp, by simp [messages]⟩
  | append_singleton es e ih =>
    obtain ⟨u, us, r, before, one, rfl⟩ := run_snoc.1 ran
    obtain ⟨h, tr, arrivals, complete⟩ := ih before
    have ofCfg := (sane_of_trace sound (Trace.of_run before)).ofCfg
    -- the earlier messages keep their places
    have old : ∀ x : Reassembler.Op × Reassembler.Outcome, ∀ m ∈ messages us, ∃ (i : Nat) (f : Fragment) (now : UInt64) (o : AddOutcome),
        (h ++ [x])[i]? = some (Reassembler.Op.add f now, Reassembler.Outcome.added o) ∧ o.result = .complete ∧ o.out = m := by
      intro x m mem
      obtain ⟨i, f, now, o, hi, result, out⟩ := complete m mem
      exact ⟨i, f, now, o, by rw [List.getElem?_append_left (List.getElem?_eq_some_iff.1 hi).1]; exact hi, result, out⟩
    have past : ∀ x ∈ h, ∀ g t, x.1 = Op.add g t → ∃ now io, .datagram g.datagram now io ∈ es ++ [e] := by
      intro x mem g t arrived_
      obtain ⟨now, io, at_⟩ := arrivals x mem g t arrived_
      exact ⟨now, io, List.mem_append_left _ at_⟩
    rw [messages_snoc]
    cases storeStep_of_step one with
    | none message same =>
      rw [message, same]
      exact ⟨h, tr, past, by simpa using complete⟩
    | sweep message call =>
      rw [ofCfg] at call
      refine ⟨_, tr.snoc call, ?_, ?_⟩
      · intro x mem g t arrived_
        rcases List.mem_append.1 mem with mem | mem
        · exact past x mem g t arrived_
        · rw [List.mem_singleton.1 mem] at arrived_
          cases arrived_
      · rw [message]
        intro m mem
        exact old _ m (by simpa using mem)
    | @add f now io o event message call =>
      rw [ofCfg] at call
      refine ⟨_, tr.snoc call, ?_, ?_⟩
      · intro x mem g t arrived_
        rcases List.mem_append.1 mem with mem | mem
        · exact past x mem g t arrived_
        · rw [List.mem_singleton.1 mem] at arrived_
          cases arrived_
          exact ⟨now, io, by simp [event]⟩
      · intro m mem
        rcases List.mem_append.1 mem with mem | mem
        · exact old _ m mem
        · rw [message] at mem
          split at mem
          next result =>
            have arrived_ : m = o.out := by simpa using mem
            exact ⟨h.length, f, now, o, by simp, result, arrived_.symm⟩
          next => simp at mem

end Store

end Receiver

section Arriving

/-- The datagrams that the socket of the receiver is offered in a round. -/
def LoopRound.arriving (r : LoopRound) : List Bytes :=
  match r.poll with
  | .ready (some q) _ => datagrams q
  | _ => []

def Session.arriving (x : Session) : List Bytes := x.rounds.flatMap LoopRound.arriving

variable {d : Bytes} {now : UInt64} {io : Capture.Stdio}

theorem takenEvents_datagram (q : List SocketAnswer) :
    ∀ {budget : Nat}, .datagram d now io ∈ ReceiverLoop.takenEvents budget q → d ∈ datagrams q := by
  induction q with
  | nil =>
    intro budget mem
    cases budget <;> cases mem
  | cons a q ih =>
    intro budget mem
    cases budget with
    | zero => cases mem
    | succ budget =>
      cases a with
      | interrupted => exact ih mem
      | error => cases mem
      | datagram data drops now' io' =>
        unfold ReceiverLoop.takenEvents at mem
        split_ifs at mem
        · cases mem
        · exact List.mem_cons_of_mem _ (ih mem)
        · rcases List.mem_cons.1 mem with eq | mem
          · cases eq
            exact List.mem_cons_self
          · exact List.mem_cons_of_mem _ (ih mem)

theorem commandEvents_datagram (q : List CommandAnswer) :
    ∀ {left : Nat}, .datagram d now io ∉ ReceiverLoop.commandEvents left q := by
  induction q with
  | nil =>
    intro left mem
    cases left <;> cases mem
  | cons a q ih =>
    intro left mem
    cases left with
    | zero => cases mem
    | succ left =>
      cases a with
      | error => cases mem
      | frames first rest io' =>
        rcases List.mem_cons.1 mem with eq | mem
        · cases eq
        · exact ih mem

theorem timerEvents_datagram (l : ReceiverLoop) (r : LoopRound) : .datagram d now io ∉ l.timerEvents r := by
  unfold ReceiverLoop.timerEvents
  split_ifs <;> simp

theorem roundEvents_datagram {l : ReceiverLoop} {r : LoopRound} {o : LoopReaction}
    (mem : .datagram d now io ∈ l.roundEvents r o) : d ∈ r.arriving := by
  unfold ReceiverLoop.roundEvents at mem
  unfold LoopRound.arriving
  cases running : l.running with
  | false =>
    rw [running] at mem
    cases mem
  | true =>
    simp only [running, Bool.not_true, Bool.false_eq_true, if_false] at mem
    cases poll : r.poll with
    | interrupted => rw [poll] at mem; cases mem
    | error => rw [poll] at mem; cases mem
    | timeout =>
      rw [poll] at mem
      exact absurd mem (timerEvents_datagram l r)
    | ready udp commands =>
      simp only [poll, List.mem_append, timerEvents_datagram, or_false, ReceiverLoop.readyEvents] at mem
      rcases mem with mem | mem
      · cases udp with
        | none => cases mem
        | some q => exact takenEvents_datagram q mem
      · cases commands with
        | none => cases mem
        | some q =>
          dsimp only [Option.elim_some] at mem
          split_ifs at mem
          · exact absurd mem (commandEvents_datagram q)
          · cases mem

theorem sessionEvents_datagram {cfg : ReceiverConfig} {x : Session}
    (mem : .datagram d now io ∈ ReceiverLoop.sessionEvents cfg x) : d ∈ x.arriving := by
  unfold ReceiverLoop.sessionEvents at mem
  split at mem
  · simp at mem
  rcases List.mem_cons.1 mem with eq | mem
  · cases eq
  split at mem
  · rcases List.mem_append.1 mem with mem | mem
    · obtain ⟨l, r, o, round, mem⟩ := mem_collect mem
      exact List.mem_flatMap.2 ⟨r, round, roundEvents_datagram mem⟩
    · simp at mem
  · simp at mem

end Arriving

section Faithful

open Capture Capture.CaptureReader

/-- The record is the `k`-th message of the source `src`, which was given to the bridge as `c`. -/
structure IsMessage (cfg : BridgeConfig) (src : BridgeSourceConfig) (k : Nat) (c : Call) (x : Record) : Prop where
  sourceId : x.hdr.sourceId = src.id
  sequence : x.hdr.sequence = UInt64.ofNat k
  timestampNs : x.hdr.timestampNs = c.timestampNs
  flags : x.hdr.flags =
    if fragmentCountFor c.data.length cfg.fragmentPayload.toNat > 1 then c.flags ||| kFlagFragmented else c.flags
  length : x.hdr.payloadLength.toNat = c.data.length
  payload : x.payload = c.data

/-- Whatever the network does with the datagrams of the bridge, and whatever else fails: each record
that is read from any part of the capture file, from its beginning, is a message that a source was given. -/
theorem capture_faithful (env : NetEnv) (file : ConfigFile) (cfg : BridgeConfig)
    (ok : buildBridgeConfig env file = (cfg, [])) (es : List BridgeEvent)
    (whole : ∀ i answers, .arrive i answers ∈ es → Whole false answers)
    (noWrap : ∀ i, (messages i none (arrived i es)).length ≤ 2 ^ 64)
    (rcfg : ReceiverConfig) (sound : rcfg.Sound) (x : Session) :
    ∃ w outs, run BridgeWorld.step (.start cfg) es = .ok (w, outs) ∧
      ((∀ d ∈ x.arriving, d ∈ wire outs ∨ Fragment.ofDatagram d = none) →
        ∃ s code, ReceiverLoop.receiverMain rcfg x = .ok (s, code) ∧
          ∀ path part, part <+: s.writer.handed → ∃ r got, readFile path (.ok part) = .ok (r, got) ∧
            ∀ rec ∈ got, ∃ i src k c, cfg.sources[i]? = some src ∧ (messages i none (arrived i es))[k]? = some c ∧
              IsMessage cfg src k c rec) := by
  have size := accepted_datagram_size ok
  have chunk := accepted_payload ok
  have payload : cfg.fragmentPayload.toNat + kHeaderSize ≤ kMaxUdpPayload := by omega
  have pos : 0 < cfg.fragmentPayload.toNat := by omega
  obtain ⟨w, outs, ran, -, within, kept⟩ := run_kept payload pos es whole
  refine ⟨w, outs, ran, fun network => ?_⟩
  have front : ∀ i, sentStreams cfg es i <+: messages i none (arrived i es) := by
    intro i
    unfold sentStreams
    split
    next lt =>
      have here := kept i _ (List.getElem?_eq_getElem lt)
      rw [arrived_eq_lane, messages_append (show Whole (Option.isSome none) _ from here.taken)]
      exact List.prefix_append _ _
    next => exact List.nil_prefix
  have sorted := sentStreams_sorted cfg es
  have short := @count_allCalls cfg _ sorted fun i => (front i).length_le.trans (noWrap i)
  -- whatever is on the wire was emitted for one of these messages
  have emits : ∀ d ∈ wire outs, ∃ p m, Emitted cfg (allCalls cfg (sentStreams cfg es)) p m d := by
    intro d hd
    obtain ⟨o, ho, hd⟩ := List.mem_flatMap.1 hd
    have lt := within o ho
    have hsrc := List.getElem?_eq_getElem lt
    have sent := (kept o.1 _ hsrc).sent
    have mine : o.2 ∈ stream o.1 outs :=
      List.mem_map.2 ⟨o, List.mem_filter.2 ⟨ho, by simp⟩, rfl⟩
    rw [sent] at mine
    obtain ⟨k, hk⟩ := List.getElem?_of_mem mine
    rw [List.getElem?_mapIdx, Option.map_eq_some_iff] at hk
    obtain ⟨c, hc, eq⟩ := hk
    rw [← eq] at hd
    exact emitted_of_stream sorted hsrc (by unfold sentStreams; rw [if_pos lt]; exact hc) hd
  obtain ⟨s, code, ranMain, t, rs, ranEvents, same⟩ := ReceiverLoop.main_reaches sound x
  have leaves := ReceiverLoop.leaves_of_run sound ranEvents same
  refine ⟨s, code, ranMain, fun path part front' => ?_⟩
  obtain ⟨r, got, read, first⟩ := leaves.readBack path part front'
  refine ⟨r, got, read, fun rec mem => ?_⟩
  -- the record was made from a message that the store completed
  obtain ⟨m, recorded, rfl⟩ := List.mem_map.1 (first.subset mem)
  have completed : m ∈ Receiver.messages rs := leaves.completed.subset recorded
  obtain ⟨h, tr, arrivals, complete⟩ := Receiver.store_of_run sound ranEvents
  obtain ⟨n, f, now, o, hn, result, out⟩ := complete m completed
  obtain ⟨u, u', before, call, -, split⟩ := tr.at_index hn
  have sent : ∀ y ∈ h.take n ++ [(Reassembler.Op.add f now, Reassembler.Outcome.added o)], ∀ g t,
      y.1 = Reassembler.Op.add g t → ∃ p m, Emitted cfg (allCalls cfg (sentStreams cfg es)) p m g.datagram := by
    intro y hy g t eq
    rw [← split] at hy
    obtain ⟨now', io, event⟩ := arrivals y (List.mem_of_mem_take hy) g t eq
    rcases network _ (sessionEvents_datagram event) with onWire | garbage
    · exact emits _ onWire
    · rw [Fragment.ofDatagram_datagram] at garbage
      cases garbage
  obtain ⟨p, m', em, eq⟩ := completed_is_sent (accepted_ids ok) short sound.maxPending_pos before call result sent
  obtain ⟨c, src, hc, hsrc, msg⟩ := em.completed
  have place := stream_of_call sorted hc hsrc
  rw [out, msg] at eq
  have length : m'.data.length = c.data.length := congrArg CompletedMessage.length msg
  have limit := m'.short
  obtain ⟨more, all⟩ := front c.index
  refine ⟨c.index, src, callsBefore (allCalls cfg (sentStreams cfg es)) p c.index, c, hsrc, ?_, ?_⟩
  · rw [← all, List.getElem?_append_left (List.getElem?_eq_some_iff.1 place).1]
    exact place
  · rw [eq]
    refine ⟨rfl, rfl, rfl, rfl, ?_, List.take_length⟩
    have fits : c.data.length < 2 ^ 32 := by
      rw [length] at limit
      exact Nat.lt_of_le_of_lt limit (by decide)
    exact UInt32.toNat_ofNat_of_lt' fits

/-- A message of two frames, sent in two fragments. -/
def labFrames : List BridgeEvent :=
  [.arrive 0 [.frame [1] true 5 fun _ => .sent 46, .frame [2, 3] false 6 fun _ => .sent 46],
    .poll (.ready fun _ => true)]

theorem labFrames_outcome : observations BridgeWorld.step (.start labCfg) labFrames =
    some [[], [(0, ⟨true, [labDatagram false, labDatagram true]⟩)]] := by decide +kernel

/-- The fragments arrive the other way round, with something else between them. -/
def labSession : Session where
  rounds := [{ poll := .ready (some [.datagram (labDatagram true) none 0 {}, .datagram [1] none 0 {},
    .datagram (labDatagram false) none 1 {}]) none }]

theorem capture_faithful_lab : ∃ w outs s code, run BridgeWorld.step (.start labCfg) labFrames = .ok (w, outs) ∧
    ReceiverLoop.receiverMain {} labSession = .ok (s, code) ∧
    ∀ path part, part <+: s.writer.handed → ∃ r got, readFile path (.ok part) = .ok (r, got) ∧
      ∀ rec ∈ got, ∃ i src k c, labCfg.sources[i]? = some src ∧ (messages i none (arrived i labFrames))[k]? = some c ∧
        IsMessage labCfg src k c rec := by
  have short : ∀ i, (messages i none (arrived i labFrames)).length ≤ 2 ^ 64 := by
    intro i
    by_cases zero : i = 0
    · rw [zero]
      decide +kernel
    · have nothing : arrived i labFrames = [] := by simp [arrived, labFrames, Ne.symm zero]
      rw [nothing]
      exact Nat.zero_le _
  obtain ⟨w, outs, ran, all⟩ := capture_faithful labEnv labFile labCfg labFile_accepted labFrames (by
    intro i answers mem
    simp only [labFrames, List.mem_cons, BridgeEvent.arrive.injEq, List.not_mem_nil, reduceCtorEq, or_false] at mem
    rw [mem.2]
    rfl) short {} ReceiverConfig.default_sound labSession
  obtain rfl := observations_of_run ran labFrames_outcome
  obtain ⟨s, code, ranMain, read⟩ := all (by
    intro d mem
    have three : d = labDatagram true ∨ d = [1] ∨ d = labDatagram false := by
      simpa [Session.arriving, labSession, LoopRound.arriving, datagrams] using mem
    rcases three with rfl | rfl | rfl
    · exact .inl (by simp [wire])
    · exact .inr rfl
    · exact .inl (by simp [wire]))
  exact ⟨w, _, s, code, ran, ranMain, read⟩

end Faithful

end IpcRelay
