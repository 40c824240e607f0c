import IpcRelay.Bridge.Service

/-!
# The output stream of the bridge

A run of the bridge is a list of arrivals at its sockets and calls of
`poll_once`. `lane` is one source on its own: what it holds and what was taken
from it, a function of the events that concern this source. Every source of the
bridge behaves as its lane (`run_kept`), so its stream of datagrams is a function
of the lane: message `k` of it, sent with sequence number `k` (`OutputLaw`).
-/

namespace IpcRelay

open Wire Machine Bridge

inductive BridgeEvent where
  | arrive (index : Nat) (answers : List RecvAnswer)
  | poll (answer : PollAnswer)

/-- One event, with the calls of `transmit` that it leads to. A run that goes on after a fatal
error of `zmq_poll` is covered too. -/
def BridgeWorld.step (w : BridgeWorld) : BridgeEvent → Exec (BridgeWorld × List (Nat × Transmitted))
  | .arrive index answers =>
    .ok ({ w with sockets := Function.update w.sockets index (w.sockets index ++ answers) }, [])
  | .poll answer => do
    let (w, _, outs) ← w.pollOnce answer
    .ok (w, outs)

/-- The answers that arrive at a socket. -/
def arrived (index : Nat) (es : List BridgeEvent) : List RecvAnswer :=
  es.flatMap fun
    | .arrive i answers => if i = index then answers else []
    | .poll _ => []

/-- The calls of `transmit` for a source. -/
def stream (index : Nat) (outs : List (List (Nat × Transmitted))) : List Transmitted :=
  (outs.flatten.filter fun o => o.1 = index).map Prod.snd

/-- Everything that the bridge puts on the network. -/
def wire (outs : List (List (Nat × Transmitted))) : List Bytes := outs.flatten.flatMap fun o => o.2.datagrams

/-- What a source sees of a run. -/
inductive LaneEvent where
  | arrive (answers : List RecvAnswer)
  | serve

def laneView (index : Nat) : BridgeEvent → Option LaneEvent
  | .arrive i answers => if i = index then some (.arrive answers) else none
  | .poll (.ready readable) => if readable index then some .serve else none
  | .poll _ => none

/-- One source on its own: the answers that wait and those that were taken. -/
structure Lane where
  queue : List RecvAnswer := []
  taken : List RecvAnswer := []

def Lane.step (budget : Nat) (l : Lane) : LaneEvent → Lane
  | .arrive answers => { l with queue := l.queue ++ answers }
  | .serve =>
    let rest := leftOver budget l.queue
    { queue := rest, taken := l.taken ++ l.queue.take (l.queue.length - rest.length) }

def lane (cfg : BridgeConfig) (index : Nat) (es : List BridgeEvent) : Lane :=
  (es.filterMap (laneView index)).foldl (Lane.step cfg.maxMessagesPerPoll.toNat) {}

/-- What becomes of a message that gets the sequence number. -/
def Fate (cfg : BridgeConfig) (src : BridgeSourceConfig) (sequence : UInt64) (c : Call) (t : Transmitted) : Prop :=
  match c.outgoing cfg src sequence with
  | some m => t.datagrams <+: m.datagrams ∧ (t.ok = true ↔ t.datagrams = m.datagrams)
  | none => t = ⟨false, []⟩

/-- The stream of a source from which the messages `calls` were received. -/
structure OutputLaw (cfg : BridgeConfig) (index : Nat) (src : BridgeSourceConfig) (calls : List Call)
    (outs : List (List (Nat × Transmitted))) : Prop where
  once : (stream index outs).length = calls.length
  fate : ∀ k c t, calls[k]? = some c → (stream index outs)[k]? = some t → Fate cfg src (UInt64.ofNat k) c t
  consecutive : ∀ (k : Nat) (t : Transmitted), (stream index outs)[k]? = some t → t.datagrams <:+: wire outs
  /-- All datagrams with a sequence number come from one message. -/
  own : calls.length ≤ 2 ^ 64 → ∀ k t, (stream index outs)[k]? = some t →
    ((wire outs).filter fun d => (headerOf d).sourceId = src.id ∧ (headerOf d).sequence = UInt64.ofNat k) = t.datagrams
  ordered : calls.length ≤ 2 ^ 64 →
    ((wire outs).filter fun d => (headerOf d).sourceId = src.id).Pairwise fun d d' =>
      (headerOf d).sequence ≤ (headerOf d').sequence

section Views

variable {cfg : BridgeConfig} {index : Nat} {es : List BridgeEvent} {e : BridgeEvent}
  {outs : List (List (Nat × Transmitted))} {out : List (Nat × Transmitted)}

theorem arrived_snoc : arrived index (es ++ [e]) = arrived index es ++ arrived index [e] := by
  simp [arrived]

theorem stream_snoc : stream index (outs ++ [out]) = stream index outs ++ stream index [out] := by
  simp [stream]

theorem lane_snoc : lane cfg index (es ++ [e]) =
    match laneView index e with
    | some v => (lane cfg index es).step cfg.maxMessagesPerPoll.toNat v
    | none => lane cfg index es := by
  unfold lane
  rw [List.filterMap_append, List.foldl_append]
  cases h : laneView index e <;> simp [h]

theorem stream_append (a b : List (Nat × Transmitted)) : stream index [a ++ b] = stream index [a] ++ stream index [b] := by
  simp [stream]

end Views

section Blocks

variable {α : Type} {key : α → Nat} {blocks : List (List α)}

/-- Where every block has its index as the key of its elements, the keys do not decrease ... -/
theorem keys_ordered (keyed : ∀ k block, blocks[k]? = some block → ∀ a ∈ block, key a = k) :
    blocks.flatten.Pairwise fun a a' => key a ≤ key a' := by
  rw [List.pairwise_flatten]
  constructor
  · intro block mem
    obtain ⟨k, hk⟩ := List.getElem?_of_mem mem
    apply List.pairwise_of_forall_mem_list
    intro a ha a' ha'
    rw [keyed k block hk a ha, keyed k block hk a' ha']
  · rw [List.pairwise_iff_getElem]
    intro i j hi hj lt a ha a' ha'
    rw [keyed i _ (List.getElem?_eq_getElem hi) a ha, keyed j _ (List.getElem?_eq_getElem hj) a' ha']
    exact lt.le

/-- ... and the elements with a key are its block. -/
theorem filter_key {k : Nat} {block : List α} (keyed : ∀ k block, blocks[k]? = some block → ∀ a ∈ block, key a = k)
    (hk : blocks[k]? = some block) : (blocks.flatten.filter fun a => key a = k) = block := by
  obtain ⟨lt, rfl⟩ := List.getElem?_eq_some_iff.1 hk
  have split : blocks = blocks.take k ++ blocks[k] :: blocks.drop (k + 1) := by
    rw [List.getElem_cons_drop, List.take_append_drop]
  have own : ∀ a ∈ blocks[k], key a = k := keyed k _ hk
  have before : ∀ a ∈ (blocks.take k).flatten, key a ≠ k := by
    intro a ha
    obtain ⟨block, mem, ha⟩ := List.mem_flatten.1 ha
    obtain ⟨i, hi⟩ := List.getElem?_of_mem mem
    rw [List.getElem?_take] at hi
    split at hi
    · rw [keyed i block hi a ha]
      omega
    · cases hi
  have behind : ∀ a ∈ (blocks.drop (k + 1)).flatten, key a ≠ k := by
    intro a ha
    obtain ⟨block, mem, ha⟩ := List.mem_flatten.1 ha
    obtain ⟨i, hi⟩ := List.getElem?_of_mem mem
    rw [List.getElem?_drop] at hi
    rw [keyed _ block hi a ha]
    omega
  conv_lhs => rw [split]
  rw [List.flatten_append, List.flatten_cons, List.filter_append, List.filter_append,
    List.filter_eq_nil_iff.2 (by simpa using before), List.filter_eq_self.2 (by simpa using own),
    List.filter_eq_nil_iff.2 (by simpa using behind)]
  simp

end Blocks

/-- A source of the bridge is where its lane is, after the transmissions `ts`. -/
structure Kept (cfg : BridgeConfig) (index : Nat) (src : BridgeSourceConfig) (l : Lane) (w : BridgeWorld)
    (ts : List Transmitted) : Prop where
  queue : w.sockets index = l.queue
  waiting : Whole false l.queue
  taken : Whole false l.taken
  numbers : w.bridge.nextSequence index = some (UInt64.ofNat ts.length)
  sent : ts = (messages index none l.taken).mapIdx fun k c => emitted cfg src (UInt64.ofNat k) c

section Kept

variable {cfg : BridgeConfig} {index : Nat} {src : BridgeSourceConfig} {l : Lane} {w w' : BridgeWorld}
  {ts : List Transmitted}

/-- The source does not look at anything else. -/
theorem Kept.congr (kept : Kept cfg index src l w ts) (queue : w'.sockets index = w.sockets index)
    (numbers : w'.bridge.nextSequence index = w.bridge.nextSequence index) : Kept cfg index src l w' ts where
  queue := queue.trans kept.queue
  waiting := kept.waiting
  taken := kept.taken
  numbers := numbers.trans kept.numbers
  sent := kept.sent

variable (payload : cfg.fragmentPayload.toNat + kHeaderSize ≤ kMaxUdpPayload) (pos : 0 < cfg.fragmentPayload.toNat)

include payload pos

theorem serviceSource_kept (same : w.bridge.cfg = cfg) (hsrc : cfg.sources[index]? = some src)
    (kept : Kept cfg index src l w ts) :
    ∃ w' outs, w.serviceSource index = .ok (w', outs) ∧ w'.bridge.cfg = cfg ∧ (∀ o ∈ outs, o.1 = index) ∧
      Kept cfg index src (l.step cfg.maxMessagesPerPoll.toNat .serve) w' (ts ++ outs.map Prod.snd) ∧
      ∀ j ≠ index, w'.sockets j = w.sockets j ∧ w'.bridge.nextSequence j = w.bridge.nextSequence j := by
  subst same
  have waiting : Whole false (w.sockets index) := by
    rw [kept.queue]
    exact kept.waiting
  obtain ⟨r, used, ran, serves⟩ := serviceLoop_spec w.bridge.cfg.maxMessagesPerPoll.toNat w.bridge _ w.concat
    (w.sockets index) payload pos hsrc kept.numbers waiting
  refine ⟨{ bridge := r.bridge, concat := r.concat, sockets := Function.update w.sockets index r.rest },
    r.outs.map fun out => (index, out), bind_ok.2 ⟨r, ran, rfl⟩, serves.cfg, ?_, ?_, ?_⟩
  · intro o ho
    obtain ⟨out, _, rfl⟩ := List.mem_map.1 ho
    rfl
  · have cut : l.queue.take (l.queue.length - r.rest.length) = used := by
      rw [← kept.queue, serves.split]
      simp
    have rest : leftOver w.bridge.cfg.maxMessagesPerPoll.toNat l.queue = r.rest := by
      rw [← kept.queue, serves.rest]
    have outs : (r.outs.map fun out => (index, out)).map Prod.snd = r.outs := by
      rw [List.map_map]
      exact List.map_id _
    have step : l.step w.bridge.cfg.maxMessagesPerPoll.toNat .serve = ⟨r.rest, l.taken ++ used⟩ := by
      simp only [Lane.step, rest, cut]
    rw [outs, step]
    constructor
    · exact Function.update_self ..
    · apply serves.whole.append.1
      rw [← serves.split]
      exact waiting
    · exact kept.taken.append.2 serves.whole
    · show r.bridge.nextSequence index = _
      rw [serves.numbers, if_pos rfl, List.length_append, UInt64.ofNat_add]
    · rw [messages_append (show Whole (Option.isSome none) l.taken from kept.taken), List.mapIdx_append, ← kept.sent]
      congr 1
      rw [serves.outs]
      congr 1
      funext k c
      have len : ts.length = (messages index none l.taken).length := by
        conv_lhs => rw [kept.sent]
        exact List.length_mapIdx
      rw [len, ← UInt64.ofNat_add, Nat.add_comm]
  · intro j other
    exact ⟨Function.update_of_ne other _ _, by rw [serves.numbers, if_neg other]⟩

/-- What a call of `poll_once` does to one source. -/
theorem serviceAll_kept (readable : Nat → Bool) (is : List Nat) :
    ∀ {w : BridgeWorld}, is.Nodup → (∀ i ∈ is, i < cfg.sources.length) → w.bridge.cfg = cfg →
      (∀ i src, cfg.sources[i]? = some src → ∃ l ts, Kept cfg i src l w ts) →
      ∃ w' outs, BridgeWorld.serviceAll readable is w = .ok (w', outs) ∧ w'.bridge.cfg = cfg ∧
        (∀ o ∈ outs, o.1 < cfg.sources.length) ∧
        ∀ i src l ts, cfg.sources[i]? = some src → Kept cfg i src l w ts →
          Kept cfg i src (if readable i ∧ i ∈ is then l.step cfg.maxMessagesPerPoll.toNat .serve else l) w'
            (ts ++ stream i [outs]) := by
  induction is with
  | nil =>
    intro w _ _ same _
    refine ⟨w, [], rfl, same, by simp, ?_⟩
    intro i src l ts _ kept
    simpa [stream] using kept
  | cons i is ih =>
    intro w nodup small same all
    obtain ⟨fresh, nodup⟩ := List.nodup_cons.1 nodup
    have small' : ∀ j ∈ is, j < cfg.sources.length := fun j hj => small j (List.mem_cons_of_mem _ hj)
    by_cases ready : readable i = true
    · have lt := small i List.mem_cons_self
      have hi : cfg.sources[i]? = some cfg.sources[i] := List.getElem?_eq_getElem lt
      obtain ⟨l, ts, kept⟩ := all i _ hi
      obtain ⟨w₁, out, ran, same₁, own, kept₁, frame⟩ := serviceSource_kept payload pos same hi kept
      have mine : stream i [out] = out.map Prod.snd := by
        have all : (out.filter fun o => o.1 = i) = out := List.filter_eq_self.2 (by simpa using own)
        simp [stream, all]
      have step : ∀ j src l ts, cfg.sources[j]? = some src → Kept cfg j src l w ts →
          Kept cfg j src (if j = i then l.step cfg.maxMessagesPerPoll.toNat .serve else l) w₁ (ts ++ stream j [out]) := by
        intro j src' l' ts' hj kept'
        by_cases here : j = i
        · subst here
          obtain ⟨w₁', out', ran', _, _, kept₁', _⟩ := serviceSource_kept payload pos same hj kept'
          rw [ran] at ran'
          cases ran'
          rw [if_pos rfl, mine]
          exact kept₁'
        · have silent : stream j [out] = [] := by
            have no : (out.filter fun o => o.1 = j) = [] := by
              rw [List.filter_eq_nil_iff]
              intro o ho
              rw [own o ho]
              simpa using Ne.symm here
            simp [stream, no]
          rw [if_neg here, silent, List.append_nil]
          exact kept'.congr (frame j here).1 (frame j here).2
      obtain ⟨w₂, outs, ran₂, same₂, within, kept₂⟩ := ih nodup small' same₁ fun j src hj => by
        obtain ⟨l', ts', kept'⟩ := all j src hj
        exact ⟨_, _, step j src l' ts' hj kept'⟩
      refine ⟨w₂, out ++ outs, ?_, same₂, ?_, ?_⟩
      · simp only [BridgeWorld.serviceAll, ready, if_true, ran, ran₂, bind, Except.bind]
      · intro o ho
        rcases List.mem_append.1 ho with ho | ho
        · rw [own o ho]
          exact lt
        · exact within o ho
      · intro j src' l' ts' hj kept'
        have last := kept₂ j src' _ _ hj (step j src' l' ts' hj kept')
        rw [List.append_assoc, ← stream_append] at last
        by_cases here : j = i
        · subst here
          simpa [ready, fresh] using last
        · simpa [here] using last
    · obtain ⟨w', outs, ran, same', within, kept⟩ := ih nodup small' same all
      refine ⟨w', outs, ?_, same', within, ?_⟩
      · rw [BridgeWorld.serviceAll, if_neg ready]
        exact ran
      · intro j src' l' ts' hj kept'
        have last := kept j src' l' ts' hj kept'
        by_cases here : j = i
        · subst here
          simpa [ready] using last
        · simpa [here] using last

/-- One event of the run, for one source. -/
theorem step_kept {e : BridgeEvent} (whole : ∀ i answers, e = .arrive i answers → Whole false answers)
    (same : w.bridge.cfg = cfg) (all : ∀ i src, cfg.sources[i]? = some src → ∃ l ts, Kept cfg i src l w ts) :
    ∃ w' out, w.step e = .ok (w', out) ∧ w'.bridge.cfg = cfg ∧ (∀ o ∈ out, o.1 < cfg.sources.length) ∧
      ∀ i src l ts, cfg.sources[i]? = some src → Kept cfg i src l w ts →
        Kept cfg i src (((laneView i e).map (l.step cfg.maxMessagesPerPoll.toNat)).getD l) w'
          (ts ++ stream i [out]) := by
  cases e with
  | arrive j answers =>
    refine ⟨_, _, rfl, same, by simp, ?_⟩
    intro i src l ts _ kept
    have silent : stream i [[]] = [] := rfl
    rw [silent, List.append_nil]
    by_cases here : j = i
    · subst here
      simp only [laneView, if_true, Option.map_some, Option.getD_some, Lane.step]
      constructor
      · show Function.update w.sockets j (w.sockets j ++ answers) j = _
        rw [Function.update_self, kept.queue]
      · exact kept.waiting.append.2 (whole j answers rfl)
      · exact kept.taken
      · exact kept.numbers
      · exact kept.sent
    · simp only [laneView, if_neg here, Option.map_none, Option.getD_none]
      apply kept.congr
      · exact Function.update_of_ne (Ne.symm here) _ _
      · rfl
  | poll answer =>
    cases answer with
    | ready readable =>
      let stats := { w.bridge.stats with pollIterations := w.bridge.stats.pollIterations + 1 }
      obtain ⟨w', outs, ran, same', within, kept⟩ := serviceAll_kept payload pos readable
        (List.range cfg.sources.length) (w := { w with bridge := { w.bridge with stats := stats } })
        List.nodup_range (fun i hi => List.mem_range.1 hi) same fun i src hi => by
          obtain ⟨l, ts, kept⟩ := all i src hi
          exact ⟨l, ts, kept.congr rfl rfl⟩
      refine ⟨w', outs, ?_, same', within, ?_⟩
      · rw [← same] at ran
        simp only [BridgeWorld.step, BridgeWorld.pollOnce, bind, Except.bind]
        rw [ran]
      · intro i src l ts hi before
        have after := kept i src l ts hi (before.congr rfl rfl)
        have lt : i < cfg.sources.length := (List.getElem?_eq_some_iff.1 hi).1
        simp only [List.mem_range, lt, and_true] at after
        cases ready : readable i <;> simpa [laneView, ready] using after
    | interrupted | again | error | timeout =>
      refine ⟨_, _, rfl, same, by simp, ?_⟩
      intro i src l ts _ kept
      have silent : stream i [[]] = [] := rfl
      rw [silent, List.append_nil]
      exact kept.congr rfl rfl

/-- In every run each source is where its lane is. -/
theorem run_kept (es : List BridgeEvent) (whole : ∀ i answers, .arrive i answers ∈ es → Whole false answers) :
    ∃ w outs, run BridgeWorld.step (.start cfg) es = .ok (w, outs) ∧ w.bridge.cfg = cfg ∧
      (∀ o ∈ outs.flatten, o.1 < cfg.sources.length) ∧
      ∀ i src, cfg.sources[i]? = some src → Kept cfg i src (lane cfg i es) w (stream i outs) := by
  induction es using List.reverseRecOn with
  | nil =>
    refine ⟨_, _, rfl, rfl, by simp, ?_⟩
    intro i src hi
    constructor
    · rfl
    · rfl
    · rfl
    · show ((cfg.sources.map fun _ => ({} : BridgeSourceStats))[i]?).map BridgeSourceStats.nextSequence = _
      rw [List.getElem?_map, hi]
      rfl
    · rfl
  | append_singleton es e ih =>
    obtain ⟨w, outs, ran, same, within, kept⟩ := ih fun i answers mem => whole i answers (List.mem_append_left _ mem)
    have last : ∀ i answers, e = .arrive i answers → Whole false answers := by
      rintro i answers rfl
      exact whole i answers (by simp)
    obtain ⟨w', out, one, same', within', kept'⟩ :=
      step_kept payload pos last same fun i src hi => ⟨_, _, kept i src hi⟩
    refine ⟨w', outs ++ [out], run_snoc.2 ⟨w, outs, out, ran, one, rfl⟩, same', ?_, ?_⟩
    · intro o ho
      rw [List.flatten_append, List.mem_append] at ho
      rcases ho with ho | ho
      · exact within o ho
      · exact within' o (by simpa using ho)
    · intro i src hi
      have after := kept' i src _ _ hi (kept i src hi)
      rw [lane_snoc, stream_snoc]
      cases view : laneView i e <;> simpa [view] using after

end Kept

section Law

variable {cfg : BridgeConfig} {index : Nat} {src : BridgeSourceConfig} {es : List BridgeEvent}

/-- What arrived was taken or waits. -/
theorem arrived_eq_lane : arrived index es = (lane cfg index es).taken ++ (lane cfg index es).queue := by
  induction es using List.reverseRecOn with
  | nil => rfl
  | append_singleton es e ih =>
    rw [arrived_snoc, lane_snoc, ih]
    cases e with
    | arrive i answers =>
      by_cases here : i = index <;> simp [arrived, laneView, here, Lane.step]
    | poll answer =>
      cases answer with
      | ready readable =>
        cases ready : readable index
        · simp [arrived, laneView, ready]
        · simp only [arrived, laneView, ready, if_true, Lane.step]
          obtain ⟨used, split⟩ := leftOver_suffix cfg.maxMessagesPerPoll.toNat (lane cfg index es).queue
          generalize leftOver cfg.maxMessagesPerPoll.toNat (lane cfg index es).queue = rest at split ⊢
          rw [← split]
          simp
      | interrupted | again | error | timeout => simp [arrived, laneView]

/-- All datagrams of a message carry its source and its number. -/
theorem key_of_emitted {sequence : UInt64} {c : Call} {d : Bytes} (hd : d ∈ (emitted cfg src sequence c).datagrams) :
    (headerOf d).sourceId = src.id ∧ (headerOf d).sequence = sequence := by
  unfold emitted at hd
  split at hd
  next m out =>
    obtain ⟨i, _, rfl⟩ := List.mem_map.1 hd
    have splits := splits_of_outgoing out
    rw [Outgoing.datagram, headerOf_encode]
    exact ⟨splits.sourceId, splits.sequence⟩
  next => cases hd

theorem fate_of_emitted (sequence : UInt64) (c : Call) : Fate cfg src sequence c (emitted cfg src sequence c) := by
  unfold Fate emitted
  cases c.outgoing cfg src sequence with
  | none => rfl
  | some m =>
    refine ⟨(List.takeWhile_prefix _).map _, ?_⟩
    constructor
    · intro all
      exact congrArg _ (List.takeWhile_eq_self_iff.2 (List.all_eq_true.1 all))
    · intro eq
      have len := congrArg List.length eq
      rw [Outgoing.datagrams, List.length_map, List.length_map] at len
      have whole := (List.takeWhile_prefix _).eq_of_length len
      exact List.all_eq_true.2 (List.takeWhile_eq_self_iff.1 whole)

variable {outs : List (List (Nat × Transmitted))} {calls : Nat → List Call}

/-- The datagrams of a source are those of its own calls of `transmit`. -/
theorem filter_wire (ids : (cfg.sources.map BridgeSourceConfig.id).Nodup)
    (within : ∀ o ∈ outs.flatten, o.1 < cfg.sources.length)
    (sent : ∀ i src, cfg.sources[i]? = some src →
      stream i outs = (calls i).mapIdx fun k c => emitted cfg src (UInt64.ofNat k) c)
    (hsrc : cfg.sources[index]? = some src) :
    ((wire outs).filter fun d => (headerOf d).sourceId = src.id) = (stream index outs).flatMap Transmitted.datagrams := by
  have own : ∀ o ∈ outs.flatten, ∀ d ∈ o.2.datagrams, ((headerOf d).sourceId = src.id ↔ o.1 = index) := by
    intro o ho d hd
    have hi := List.getElem?_eq_getElem (within o ho)
    have mem : o.2 ∈ stream o.1 outs := by
      apply List.mem_map.2
      exact ⟨o, List.mem_filter.2 ⟨ho, by simp⟩, rfl⟩
    rw [sent o.1 _ hi, List.mem_mapIdx] at mem
    obtain ⟨k, _, eq⟩ := mem
    rw [← eq] at hd
    rw [(key_of_emitted hd).1]
    obtain ⟨lt, rfl⟩ := List.getElem?_eq_some_iff.1 hsrc
    constructor
    · intro same
      have at_o : (cfg.sources.map BridgeSourceConfig.id)[o.1]? = some cfg.sources[index].id := by
        rw [List.getElem?_map, hi, ← same]
        rfl
      have at_index : (cfg.sources.map BridgeSourceConfig.id)[index]? = some cfg.sources[index].id := by
        rw [List.getElem?_map, hsrc]
        rfl
      exact (List.getElem?_inj (List.getElem?_eq_some_iff.1 at_o).1 ids).1 (at_o.trans at_index.symm)
    · intro same
      subst same
      rfl
  unfold wire stream
  generalize outs.flatten = all at own
  induction all with
  | nil => rfl
  | cons o all ih =>
    have rest := ih fun o' ho' => own o' (List.mem_cons_of_mem _ ho')
    have here := own o List.mem_cons_self
    rw [List.flatMap_cons, List.filter_append, rest]
    by_cases mine : o.1 = index
    · have whole : (o.2.datagrams.filter fun d => (headerOf d).sourceId = src.id) = o.2.datagrams := by
        rw [List.filter_eq_self]
        intro d hd
        exact decide_eq_true ((here d hd).2 mine)
      have keep : ((o :: all).filter fun o => o.1 = index) = o :: all.filter fun o => o.1 = index :=
        List.filter_cons_of_pos (decide_eq_true mine)
      rw [whole, keep, List.map_cons, List.flatMap_cons]
    · have others : (o.2.datagrams.filter fun d => (headerOf d).sourceId = src.id) = [] := by
        rw [List.filter_eq_nil_iff]
        intro d hd
        rw [decide_eq_true_iff, here d hd]
        exact mine
      have leave : ((o :: all).filter fun o => o.1 = index) = all.filter fun o => o.1 = index :=
        List.filter_cons_of_neg (by simpa using mine)
      rw [others, leave, List.nil_append]

theorem outputLaw (ids : (cfg.sources.map BridgeSourceConfig.id).Nodup)
    (within : ∀ o ∈ outs.flatten, o.1 < cfg.sources.length)
    (sent : ∀ i src, cfg.sources[i]? = some src →
      stream i outs = (calls i).mapIdx fun k c => emitted cfg src (UInt64.ofNat k) c)
    (hsrc : cfg.sources[index]? = some src) : OutputLaw cfg index src (calls index) outs := by
  have mine := sent index src hsrc
  have own := filter_wire ids within sent hsrc
  have keyed : (calls index).length ≤ 2 ^ 64 → ∀ k block, ((stream index outs).map Transmitted.datagrams)[k]? = some block →
      ∀ d ∈ block, (headerOf d).sequence.toNat = k := by
    intro few k block hk d hd
    rw [mine, List.getElem?_map, List.getElem?_mapIdx] at hk
    obtain ⟨t, ht, rfl⟩ := Option.map_eq_some_iff.1 hk
    obtain ⟨c, hc, rfl⟩ := Option.map_eq_some_iff.1 ht
    have lt : k < (calls index).length := (List.getElem?_eq_some_iff.1 hc).1
    rw [(key_of_emitted hd).2]
    exact UInt64.toNat_ofNat_of_lt' (show k < 2 ^ 64 by omega)
  constructor
  · rw [mine, List.length_mapIdx]
  · intro k c t hc ht
    rw [mine, List.getElem?_mapIdx, hc] at ht
    cases ht
    exact fate_of_emitted _ _
  · intro k t ht
    obtain ⟨o, ho, rfl⟩ := List.mem_map.1 (List.mem_of_getElem? ht)
    obtain ⟨before, behind, split⟩ := List.append_of_mem (List.mem_filter.1 ho).1
    refine ⟨before.flatMap fun o => o.2.datagrams, behind.flatMap fun o => o.2.datagrams, ?_⟩
    rw [wire, split, List.flatMap_append, List.flatMap_cons, List.append_assoc]
  · intro few k t ht
    have lt : k < (calls index).length := by
      have := (List.getElem?_eq_some_iff.1 ht).1
      rw [mine, List.length_mapIdx] at this
      exact this
    have split : ((wire outs).filter fun d =>
        (headerOf d).sourceId = src.id ∧ (headerOf d).sequence = UInt64.ofNat k) =
        (((wire outs).filter fun d => (headerOf d).sourceId = src.id).filter fun d =>
          (headerOf d).sequence.toNat = k) := by
      rw [List.filter_filter]
      apply List.filter_congr
      intro d _
      have small : (UInt64.ofNat k).toNat = k := UInt64.toNat_ofNat_of_lt' (show k < 2 ^ 64 by omega)
      have same : (headerOf d).sequence = UInt64.ofNat k ↔ (headerOf d).sequence.toNat = k := by
        rw [← UInt64.toNat_inj, small]
      simp only [same, Bool.decide_and, Bool.and_comm]
    rw [split, own, List.flatMap_def]
    exact filter_key (keyed few) (by rw [List.getElem?_map, ht]; rfl)
  · intro few
    rw [own, List.flatMap_def]
    exact keys_ordered (keyed few)

end Law

/-- The output stream law: every run has a stream for each source as `OutputLaw` says, from the
messages that were received whole, and the stream depends on what concerns the source only. -/
theorem bridge_output_streams {env : NetEnv} {file : ConfigFile} {cfg : BridgeConfig}
    (ok : buildBridgeConfig env file = (cfg, [])) (es : List BridgeEvent)
    (whole : ∀ i answers, .arrive i answers ∈ es → Whole false answers) :
    ∃ w outs, run BridgeWorld.step (.start cfg) es = .ok (w, outs) ∧
      (∀ index src, cfg.sources[index]? = some src →
        ∃ taken, arrived index es = taken ++ w.sockets index ∧ Whole false taken ∧
          OutputLaw cfg index src (messages index none taken) outs) ∧
      ∀ index, index < cfg.sources.length → ∀ es' : List BridgeEvent,
        (∀ i answers, .arrive i answers ∈ es' → Whole false answers) →
        es'.filterMap (laneView index) = es.filterMap (laneView index) →
        ∃ w' outs', run BridgeWorld.step (.start cfg) es' = .ok (w', outs') ∧ stream index outs' = stream index outs := by
  have size := accepted_datagram_size ok
  have chunk := accepted_payload ok
  have payload : cfg.fragmentPayload.toNat + kHeaderSize ≤ kMaxUdpPayload := by omega
  have pos : 0 < cfg.fragmentPayload.toNat := by omega
  obtain ⟨w, outs, ran, _, within, kept⟩ := run_kept payload pos es whole
  refine ⟨w, outs, ran, ?_, ?_⟩
  · intro index src hsrc
    have here := kept index src hsrc
    refine ⟨(lane cfg index es).taken, ?_, here.taken, ?_⟩
    · rw [arrived_eq_lane, here.queue]
    · have sent : ∀ i src, cfg.sources[i]? = some src → stream i outs =
          ((fun i => messages i none (lane cfg i es).taken) i).mapIdx fun k c => emitted cfg src (UInt64.ofNat k) c :=
        fun i src hi => (kept i src hi).sent
      exact outputLaw (accepted_ids ok) within sent hsrc
  · intro index lt es' whole' same
    obtain ⟨w', outs', ran', _, _, kept'⟩ := run_kept payload pos es' whole'
    have hsrc := List.getElem?_eq_getElem lt
    have alone : lane cfg index es' = lane cfg index es := by
      unfold lane
      rw [same]
    refine ⟨w', outs', ran', ?_⟩
    rw [(kept' index _ hsrc).sent, (kept index _ hsrc).sent, alone]

section Runs

/-- A message of two frames, one that is not sent, and one of two fragments, taken in two calls of `poll_once`. -/
def labArrivals : List BridgeEvent :=
  [.arrive 0 [.frame [1] true 5 fun _ => .sent 46, .interrupted, .frame [2] false 6 fun _ => .timeout, .error,
      .frame [3] false 7 fun _ => .timeout],
    .poll (.ready fun i => i = 0), .arrive 0 [.frame [4, 5, 6] false 8 fun _ => .sent 46], .poll .interrupted,
    .poll (.ready fun _ => true)]

theorem bridge_output_streams_lab : ∃ w outs, run BridgeWorld.step (.start labCfg) labArrivals = .ok (w, outs) ∧
    ∃ src taken, labCfg.sources[0]? = some src ∧ arrived 0 labArrivals = taken ++ w.sockets 0 ∧
      OutputLaw labCfg 0 src (messages 0 none taken) outs := by
  obtain ⟨w, outs, ran, law, _⟩ := bridge_output_streams labFile_accepted labArrivals (by
    intro i answers mem
    simp only [labArrivals, List.mem_cons, BridgeEvent.arrive.injEq, List.not_mem_nil, reduceCtorEq, false_or,
      or_false] at mem
    rcases mem with ⟨_, rfl⟩ | ⟨_, rfl⟩
    · exact ⟨rfl, rfl⟩
    · rfl)
  have one : 0 < labCfg.sources.length := by decide +kernel
  obtain ⟨taken, split, _, holds⟩ := law 0 _ (List.getElem?_eq_getElem one)
  exact ⟨w, outs, ran, _, taken, List.getElem?_eq_getElem one, split, holds⟩

/-- One message after the other, each taken by its own call of `poll_once`. -/
def rounds (n : Nat) : List BridgeEvent :=
  (List.replicate n [.arrive 0 [.frame [] false 0 fun _ => .sent 44], .poll (.ready fun _ => true)]).flatten

/-- The messages of `rounds`. -/
def emptyCall : Call := ⟨0, [], 0, 0, fun _ => .sent 44⟩

theorem rounds_succ (n : Nat) : rounds (n + 1) = rounds n ++
    [.arrive 0 [.frame [] false 0 fun _ => .sent 44]] ++ [.poll (.ready fun _ => true)] := by
  simp [rounds, List.replicate_succ']

theorem lane_rounds (n : Nat) : lane labCfg 0 (rounds n) =
    ⟨[], List.replicate n (.frame [] false 0 fun _ => .sent 44)⟩ := by
  have budget : labCfg.maxMessagesPerPoll.toNat = 31 + 1 := by decide +kernel
  induction n with
  | zero => rfl
  | succ n ih =>
    rw [rounds_succ, lane_snoc, lane_snoc, ih, budget, List.replicate_succ']
    rfl

theorem messages_replicate (n : Nat) :
    messages 0 none (List.replicate n (.frame [] false 0 fun _ => .sent 44)) = List.replicate n emptyCall := by
  induction n with
  | zero => rfl
  | succ n ih => exact congrArg (emptyCall :: ·) ih

/-- The counter is 64 bits wide: message 2^64 gets the number 0 again, after the number 2^64 - 1. -/
theorem sequence_wraps : (∀ i answers, .arrive i answers ∈ rounds (2 ^ 64 + 1) → Whole false answers) ∧
    ∃ w outs src, run BridgeWorld.step (.start labCfg) (rounds (2 ^ 64 + 1)) = .ok (w, outs) ∧
      labCfg.sources[0]? = some src ∧
      (∃ t d, (stream 0 outs)[2 ^ 64]? = some t ∧ t.datagrams = [d] ∧ (headerOf d).sequence = 0) ∧
      ¬ ((wire outs).filter fun d => (headerOf d).sourceId = src.id).Pairwise fun d d' =>
        (headerOf d).sequence ≤ (headerOf d').sequence := by
  have whole : ∀ n i answers, .arrive i answers ∈ rounds n → Whole false answers := by
    intro n i answers mem
    obtain ⟨round, hround, mem⟩ := List.mem_flatten.1 mem
    rw [(List.mem_replicate.1 hround).2] at mem
    simp only [List.mem_cons, BridgeEvent.arrive.injEq, List.not_mem_nil, reduceCtorEq, or_false] at mem
    rw [mem.2]
    rfl
  have payload : labCfg.fragmentPayload.toNat + kHeaderSize ≤ kMaxUdpPayload := by decide +kernel
  have pos : 0 < labCfg.fragmentPayload.toNat := by decide +kernel
  have one : 0 < labCfg.sources.length := by decide +kernel
  have hsrc : labCfg.sources[0]? = some labCfg.sources[0] := List.getElem?_eq_getElem one
  obtain ⟨w, outs, ran, _, within, kept⟩ := run_kept payload pos (rounds (2 ^ 64 + 1)) (whole _)
  have sent := (kept 0 _ hsrc).sent
  rw [lane_rounds, messages_replicate] at sent
  have at_index : ∀ k, k < 2 ^ 64 + 1 →
      (stream 0 outs)[k]? = some (emitted labCfg labCfg.sources[0] (UInt64.ofNat k) emptyCall) := by
    intro k lt
    rw [sent, List.getElem?_mapIdx, List.getElem?_replicate, if_pos lt]
    rfl
  have single : ∀ seq, ∃ d, (emitted labCfg labCfg.sources[0] seq emptyCall).datagrams = [d] := by
    intro seq
    have fits : emptyCall.outgoing labCfg labCfg.sources[0] seq = some _ :=
      dif_pos ⟨⟨pos, payload⟩, by decide +kernel, by decide +kernel⟩
    have count : fragmentCountFor 0 labCfg.fragmentPayload.toNat = 1 := by decide +kernel
    rw [emitted, fits]
    simp only [Outgoing.count, emptyCall, List.length_nil, count]
    exact ⟨_, rfl⟩
  have numbered : ∀ {seq d}, (emitted labCfg labCfg.sources[0] seq emptyCall).datagrams = [d] →
      (headerOf d).sequence = seq := fun {seq d} eq => (key_of_emitted (by rw [eq]; exact List.mem_singleton_self d)).2
  obtain ⟨first, hfirst⟩ := single (UInt64.ofNat (2 ^ 64 - 1))
  obtain ⟨second, hsecond⟩ := single (UInt64.ofNat (2 ^ 64))
  refine ⟨whole _, w, outs, _, ran, hsrc, ⟨_, second, at_index _ (by omega), hsecond, numbered hsecond⟩, ?_⟩
  have allSent : ∀ i src, labCfg.sources[i]? = some src → stream i outs =
      ((fun i => messages i none (lane labCfg i (rounds (2 ^ 64 + 1))).taken) i).mapIdx fun k c =>
        emitted labCfg src (UInt64.ofNat k) c := fun i src hi => (kept i src hi).sent
  rw [filter_wire (by decide +kernel) within allSent hsrc, List.flatMap_def, List.pairwise_flatten]
  rintro ⟨_, later⟩
  obtain ⟨lt, here⟩ := List.getElem?_eq_some_iff.1 (at_index (2 ^ 64 - 1) (by omega))
  obtain ⟨lt', here'⟩ := List.getElem?_eq_some_iff.1 (at_index (2 ^ 64) (by omega))
  have le := List.pairwise_iff_getElem.1 later (2 ^ 64 - 1) (2 ^ 64) (by simpa using lt) (by simpa using lt')
    (by omega) first (by rw [List.getElem_map, here, hfirst]; exact List.mem_singleton_self _)
    second (by rw [List.getElem_map, here', hsecond]; exact List.mem_singleton_self _)
  rw [numbered hfirst, numbered hsecond] at le
  exact absurd le (by decide)

end Runs

end IpcRelay
