import IpcRelay.Receiver.Separation

/-!
# Draining the socket (`common/udp_multicast.cpp`, `Receiver::drain_udp`)

`receive` folds the answers of `recvmsg` into one number, `drainUdp` takes them
from the socket until that number is 0, an error, or the batch is full. A
datagram of length 0 looks like an empty queue: `drained_exactly_iff` says that
every datagram is counted once and no call stops early just if there is none.
-/

namespace IpcRelay

open Wire Capture Machine Reassembler

/-- What the next `recvmsg` answers: a datagram, with the overflow counter if the kernel sent
one, and what its handling will meet; or `errno`, with the text of it. An empty list of
answers is `EAGAIN`. -/
inductive SocketAnswer where
  | datagram (data : Bytes) (drops : Option UInt32) (now : UInt64) (io : Stdio)
  | interrupted
  | error (text : Bytes)
  deriving DecidableEq, Repr

/-- The datagrams among the answers. -/
def datagrams (t : List SocketAnswer) : List Bytes :=
  t.filterMap fun
    | .datagram data .. => some data
    | _ => none

/-- What `receive` returns and leaves in the buffer and in `kernel_drops`, with what is still
to come from the socket. -/
structure Receipt where
  n : Int
  buffer : Bytes := []
  drops : UInt32
  now : UInt64 := 0
  io : Stdio := {}
  rest : List SocketAnswer
  deriving DecidableEq, Repr

namespace UdpMulticastReceiver

/-- `receive` into a buffer of `len` bytes; with `MSG_TRUNC` the number is the full length. -/
def receive (len : Nat) (drops : UInt32) : List SocketAnswer → Receipt
  | [] => { n := 0, drops := drops, rest := [] }
  | .interrupted :: q => receive len drops q
  | .error _ :: q => { n := -1, drops := drops, rest := q }
  | .datagram data counter now io :: q =>
    { n := data.length, buffer := data.take len, drops := counter.getD drops, now := now, io := io, rest := q }

end UdpMulticastReceiver

/-- The interrupted calls are repeated; then the queue is empty, or an error or a datagram comes. -/
theorem UdpMulticastReceiver.receive_cases (len : Nat) (drops : UInt32) (q : List SocketAnswer) :
    ∃ t, datagrams t = [] ∧
      ((q = t ∧ receive len drops q = { n := 0, drops := drops, rest := [] }) ∨
        (∃ text rest, q = t ++ .error text :: rest ∧ receive len drops q = { n := -1, drops := drops, rest := rest }) ∨
        ∃ data counter now io rest, q = t ++ .datagram data counter now io :: rest ∧
          receive len drops q = { n := data.length, buffer := data.take len, drops := counter.getD drops, now := now,
                                  io := io, rest := rest }) := by
  induction q with
  | nil => exact ⟨[], rfl, .inl ⟨rfl, rfl⟩⟩
  | cons a q ih =>
    cases a with
    | error text => exact ⟨[], rfl, .inr (.inl ⟨text, q, rfl, rfl⟩)⟩
    | datagram data counter now io => exact ⟨[], rfl, .inr (.inr ⟨data, counter, now, io, q, rfl, rfl⟩)⟩
    | interrupted =>
      obtain ⟨t, silent, cases⟩ := ih
      refine ⟨.interrupted :: t, silent, ?_⟩
      rcases cases with ⟨rfl, eq⟩ | ⟨text, rest, rfl, eq⟩ | ⟨data, counter, now, io, rest, rfl, eq⟩
      · exact .inl ⟨rfl, eq⟩
      · exact .inr (.inl ⟨text, rest, rfl, eq⟩)
      · exact .inr (.inr ⟨data, counter, now, io, rest, rfl, eq⟩)

namespace Receiver

/-- The size of `buffer_`. -/
def bufferSize : Nat := kMaxUdpPayload + 1

/-- The loop of `drain_udp`. -/
def drainLoop : Nat → Receiver → List SocketAnswer → Exec (Receiver × List SocketAnswer)
  | 0, s, q => .ok (s, q)
  | budget + 1, s, q =>
    let got := UdpMulticastReceiver.receive bufferSize s.kernelDropsRaw q
    let s := { s with kernelDropsRaw := got.drops }
    if got.n = 0 then .ok (s, got.rest)
    else if got.n < 0 then
      .ok ({ s with stats := { s.stats with recvErrors := s.stats.recvErrors + 1 } }, got.rest)
    else if got.n.toNat > bufferSize then
      let s := { s with stats := { s.stats with oversize := s.stats.oversize + 1 } }
      drainLoop budget (s.noteMalformed (str "oversize") none) got.rest
    else do
      let (s, _) ← s.handleDatagram (got.buffer.take got.n.toNat) got.now got.io
      drainLoop budget s got.rest

/-- `drain_udp`. -/
def drainUdp (s : Receiver) (q : List SocketAnswer) : Exec (Receiver × List SocketAnswer) := do
  let (s, q) ← drainLoop s.cfg.maxDatagramsPerPoll.toNat s q
  .ok ({ s with stats := { s.stats with kernelDrops := s.kernelDropsRaw.toNat } }, q)

/-- One call of `drain_udp` on a receiver and its socket, with the answers that it took and
those that it left. -/
def drainStep (x : Receiver × List SocketAnswer) (_ : Unit) :
    Exec ((Receiver × List SocketAnswer) × (List SocketAnswer × List SocketAnswer)) := do
  let (s, q) ← x.1.drainUdp x.2
  .ok ((s, q), (x.2.take (x.2.length - q.length), q))

namespace Tally

/-- `packets_received` and the packets that were malformed before the reassembler saw them. -/
def counted (v : Tally) : Int :=
  v.datagrams + v.malformed - KeyMap.get 0 v.malformedByReason (str "fragment_inconsistent")

def truncated (v : Tally) : Nat := KeyMap.get 0 v.malformedByReason (str "truncated")

variable {v : Tally}

theorem get_malform (reason other : Bytes) : KeyMap.get 0 (v.malform reason).malformedByReason other =
    if other = reason then KeyMap.get 0 v.malformedByReason reason + 1 else KeyMap.get 0 v.malformedByReason other :=
  KeyMap.get_update _ _ _ _ _

theorem counted_malform {reason : Bytes} (early : reason ≠ str "fragment_inconsistent") :
    (v.malform reason).counted = v.counted + 1 := by
  unfold counted
  rw [get_malform, if_neg (Ne.symm early)]
  show (v.datagrams : Int) + ((v.malformed + 1 : Nat) : Int) - _ = _
  omega

theorem counted_inconsistent : (v.malform (str "fragment_inconsistent")).counted = v.counted := by
  unfold counted
  rw [get_malform, if_pos rfl]
  show (v.datagrams : Int) + ((v.malformed + 1 : Nat) : Int) - _ = _
  omega

theorem truncated_malform (reason : Bytes) :
    (v.malform reason).truncated = v.truncated + if reason = str "truncated" then 1 else 0 := by
  unfold truncated
  rw [get_malform]
  by_cases short : str "truncated" = reason
  · rw [if_pos short, if_pos short.symm, short]
  · rw [if_neg short, if_neg (Ne.symm short)]
    rfl

/-- The reasons for which a datagram is rejected are not that of the reassembler. -/
theorem toText_ne (err : ParseError) : err.toText ≠ str "fragment_inconsistent" := by
  cases err <;> decide

theorem toText_truncated (err : ParseError) : err.toText = str "truncated" ↔ err = .truncated := by
  cases err <;> decide

theorem settled_counts (o : AddOutcome) : (v.settled o).counted = v.counted ∧ (v.settled o).truncated = v.truncated := by
  obtain ⟨result, m, new⟩ := o
  cases result with
  | complete => exact ⟨rfl, rfl⟩
  | incomplete => exact ⟨rfl, rfl⟩
  | duplicate => exact ⟨rfl, rfl⟩
  | malformed =>
    refine ⟨counted_inconsistent, (truncated_malform _).trans ?_⟩
    rw [if_neg (by decide)]
    rfl

end Tally

section Counts

variable {s s' : Receiver} {data : Bytes} {now : UInt64} {io : Stdio} {r : Reaction}

/-- A datagram that reaches `handle_datagram` is counted once, a short one as truncated. -/
theorem counted_handleDatagram (done : s.handleDatagram data now io = .ok (s', r)) :
    s'.tally.counted = s.tally.counted + 1 ∧
      s'.tally.truncated = s.tally.truncated + if data.length < kHeaderSize then 1 else 0 := by
  obtain ⟨-, -, tally⟩ := receive_of_step (e := .datagram data now io) rfl done
  rw [tally]
  rcases Fragment.accepted_or_rejected data with ⟨f, rfl⟩ | ⟨p, parse, bad⟩
  · obtain ⟨u, o, -, rfl, -⟩ := handleDatagram_inv done
    obtain ⟨counted, truncated⟩ := @Tally.settled_counts { s.tally with
      datagrams := s.tally.datagrams + 1
      datagramBytes := s.tally.datagramBytes + (kHeaderSize + f.hdr.fragmentLength.toNat) } o
    rw [if_neg (Nat.not_lt.2 f.long)]
    refine ⟨counted.trans ?_, truncated⟩
    show ((s.tally.datagrams + 1 : Nat) : Int) + (s.tally.malformed : Int) -
      ((KeyMap.get 0 s.tally.malformedByReason (str "fragment_inconsistent") : Nat) : Int) = s.tally.counted + 1
    unfold Tally.counted
    omega
  · simp only [handleDatagram, parse, bind, Except.bind, bad, ne_eq, not_false_eq_true, if_true] at done
    cases done
    refine ⟨Tally.counted_malform (Tally.toText_ne _), (Tally.truncated_malform _).trans ?_⟩
    have short : p.err.toText = str "truncated" ↔ data.length < kHeaderSize := by
      rw [Tally.toText_truncated]
      exact parse_truncated parse
    simp only [short]

end Counts

/-- A call that took `t` and left `rest` did not stop early: nothing was left, the batch was
full, or the socket reported an error. -/
def StopsInTime (budget : Nat) (t rest : List SocketAnswer) : Prop :=
  rest = [] ∨ (datagrams t).length = budget ∨ ∃ text, t.getLast? = some (.error text)

section Loop

variable {cfg : ReceiverConfig} {s s' : Receiver}

/-- Counters of the socket are none of the reassembler's business. -/
theorem Sane.same (sane : Sane cfg s) (same : s'.cfg = s.cfg) (reassembler : s'.reassembler = s.reassembler)
    (sources : s'.stats.sources = s.stats.sources) (incomplete : s'.stats.incomplete = s.stats.incomplete) :
    Sane cfg s' where
  ofCfg := same.trans sane.ofCfg
  inv := by rw [reassembler]; exact sane.inv
  balanced := by
    have balanced := sane.balanced
    unfold Balanced at balanced ⊢
    rw [sources, incomplete]
    exact balanced

/-- The counters after a loop that took the answers `t`: those of its datagrams that are not empty. -/
structure Taken (s s' : Receiver) (t : List SocketAnswer) : Prop where
  counted : s'.tally.counted = s.tally.counted + (datagrams t).countP fun d => 0 < d.length
  truncated : s'.tally.truncated = s.tally.truncated +
    (datagrams t).countP fun d => 0 < d.length ∧ d.length < kHeaderSize

theorem Taken.of_counts {t : List SocketAnswer} {n m : Nat} (counted : s'.tally.counted = s.tally.counted + n)
    (truncated : s'.tally.truncated = s.tally.truncated + m)
    (hn : ((datagrams t).countP fun d => 0 < d.length) = n)
    (hm : ((datagrams t).countP fun d => 0 < d.length ∧ d.length < kHeaderSize) = m) : Taken s s' t :=
  ⟨by rw [counted, hn], by rw [truncated, hm]⟩

theorem Taken.quiet {t : List SocketAnswer} (silent : datagrams t = []) (same : s'.tally = s.tally) : Taken s s' t :=
  .of_counts (n := 0) (m := 0) (by simp [same]) (by simp [same]) (by simp [silent]) (by simp [silent])

theorem Taken.append {u : Receiver} {t t' : List SocketAnswer} (one : Taken s u t) (rest : Taken u s' t') :
    Taken s s' (t ++ t') := by
  have split : datagrams (t ++ t') = datagrams t ++ datagrams t' := List.filterMap_append
  refine .of_counts (n := _ + _) (m := _ + _) ?_ ?_ (by rw [split, List.countP_append])
    (by rw [split, List.countP_append])
  · rw [rest.counted, one.counted]
    push_cast
    ring
  · rw [rest.truncated, one.truncated]
    ring

theorem datagrams_append_cons {t : List SocketAnswer} (silent : datagrams t = []) (data : Bytes) (counter : Option UInt32)
    (now : UInt64) (io : Stdio) : datagrams (t ++ [.datagram data counter now io]) = [data] := by
  unfold datagrams at silent ⊢
  rw [List.filterMap_append, silent]
  rfl

/-- The loop takes answers from the front, counts their datagrams that are not empty, and
goes on in time if none is empty. -/
theorem drainLoop_spec (sound : cfg.Sound) (budget : Nat) : ∀ (q : List SocketAnswer) (s : Receiver), Sane cfg s →
    ∃ s' t rest, drainLoop budget s q = .ok (s', rest) ∧ q = t ++ rest ∧ Sane cfg s' ∧ Taken s s' t ∧
      ((∀ d ∈ datagrams t, 0 < d.length) → StopsInTime budget t rest) := by
  induction budget with
  | zero => exact fun q s sane => ⟨s, [], q, rfl, rfl, sane, .quiet rfl rfl, fun _ => .inr (.inl rfl)⟩
  | succ budget ih =>
    intro q s sane
    obtain ⟨t, silent, cases⟩ := UdpMulticastReceiver.receive_cases bufferSize s.kernelDropsRaw q
    rcases cases with ⟨rfl, got⟩ | ⟨text, rest, rfl, got⟩ | ⟨data, counter, now, io, rest, rfl, got⟩
    · refine ⟨_, q, [], ?_, (List.append_nil q).symm, sane.same rfl rfl rfl rfl, .quiet silent rfl, fun _ => .inl rfl⟩
      rw [drainLoop, got]
      exact if_pos rfl
    · have last : datagrams (t ++ [.error text]) = [] := by
        unfold datagrams at silent ⊢
        rw [List.filterMap_append, silent]
        rfl
      refine ⟨_, t ++ [.error text], rest, ?_, by simp, @Sane.same _ _ { s with
        stats := { s.stats with recvErrors := s.stats.recvErrors + 1 } } sane rfl rfl rfl rfl, .quiet last rfl,
        fun _ => .inr (.inr ⟨text, by simp⟩)⟩
      rw [drainLoop, got]
      rfl
    · have own := datagrams_append_cons silent data counter now io
      have queue : t ++ SocketAnswer.datagram data counter now io :: rest =
          (t ++ [.datagram data counter now io]) ++ rest := by simp
      -- what follows a datagram that was counted
      have go : ∀ u : Receiver, Sane cfg u → Taken s u (t ++ [.datagram data counter now io]) →
          ∃ s' t' rest', drainLoop budget u rest = .ok (s', rest') ∧
            t ++ SocketAnswer.datagram data counter now io :: rest = t' ++ rest' ∧ Sane cfg s' ∧ Taken s s' t' ∧
            ((∀ d ∈ datagrams t', 0 < d.length) → StopsInTime (budget + 1) t' rest') := by
        intro u saneU first
        obtain ⟨s', t', rest', ran, split, sane', taken, stops⟩ := ih rest u saneU
        have all : datagrams (t ++ [.datagram data counter now io] ++ t') = data :: datagrams t' := by
          have append : datagrams (t ++ [.datagram data counter now io] ++ t') =
              datagrams (t ++ [.datagram data counter now io]) ++ datagrams t' := List.filterMap_append
          rw [append, own]
          rfl
        refine ⟨s', t ++ [.datagram data counter now io] ++ t', rest', ran, ?_, sane', first.append taken, ?_⟩
        · rw [queue, split]; simp
        · intro filled
          rw [all] at filled
          rcases stops fun d hd => filled d (List.mem_cons_of_mem _ hd) with empty | full | ⟨text, last⟩
          · exact .inl empty
          · refine .inr (.inl ?_)
            rw [all, List.length_cons, full]
          · refine .inr (.inr ⟨text, ?_⟩)
            rw [List.getLast?_append, last]
            rfl
      rw [drainLoop, got]
      dsimp only
      by_cases empty : data.length = 0
      · refine ⟨_, t ++ [.datagram data counter now io], rest, if_pos (by simp [empty]), queue,
          sane.same rfl rfl rfl rfl, ?_, ?_⟩
        · exact .of_counts (n := 0) (m := 0) (Int.add_zero _).symm rfl (by simp [own, empty]) (by simp [own, empty])
        · intro filled
          have := filled data (by rw [own]; exact List.mem_singleton_self _)
          omega
      have filled : data ≠ [] := fun nothing => empty (by rw [nothing]; rfl)
      rw [if_neg (by omega), if_neg (by omega), Int.toNat_natCast]
      by_cases big : data.length > bufferSize
      · rw [if_pos big]
        apply go
        · exact sane.same rfl rfl rfl rfl
        · have long : ¬ data.length < kHeaderSize := by
            unfold bufferSize kMaxUdpPayload at big
            unfold kHeaderSize
            omega
          refine .of_counts (n := 1) (m := 0) ?_ ?_ (by simp [own, filled]) (by simp [own, long])
          · rw [tally_noteMalformed]
            exact Tally.counted_malform (by decide)
          · rw [tally_noteMalformed]
            exact (Tally.truncated_malform _).trans (by rw [if_neg (by decide)]; rfl)
      · rw [if_neg big]
        have whole : (data.take bufferSize).take data.length = data := by
          rw [List.take_of_length_le (l := data) (by omega), List.take_length]
        rw [whole]
        generalize moved : ({ s with kernelDropsRaw := counter.getD s.kernelDropsRaw } : Receiver) = u
        have saneU : Sane cfg u := by rw [← moved]; exact sane.same rfl rfl rfl rfl
        have same : u.tally = s.tally := by rw [← moved]; rfl
        obtain ⟨v, r, done, stepped⟩ := step_cases (s := u) (by rw [saneU.ofCfg]; exact saneU.inv)
          (by rw [saneU.ofCfg]; exact sound.maxPending_pos) (.datagram data now io)
        obtain ⟨counted, truncated⟩ := counted_handleDatagram done
        rw [same] at counted truncated
        have first : Taken s v (t ++ [.datagram data counter now io]) := by
          refine .of_counts (n := 1) counted truncated (by simp [own, filled]) ?_
          by_cases short : data.length < kHeaderSize <;> simp [own, short, filled]
        obtain ⟨s', t', rest', ran, facts⟩ := go v (stepped.sane saneU) first
        exact ⟨s', t', rest', bind_ok.2 ⟨(v, r), done, ran⟩, facts⟩

/-- One call of `drain_udp`. -/
theorem drainStep_spec (sound : cfg.Sound) (q : List SocketAnswer) (sane : Sane cfg s) :
    ∃ s' t rest, drainStep (s, q) () = .ok ((s', rest), (t, rest)) ∧ q = t ++ rest ∧ Sane cfg s' ∧ Taken s s' t ∧
      ((∀ d ∈ datagrams t, 0 < d.length) → StopsInTime cfg.maxDatagramsPerPoll.toNat t rest) := by
  obtain ⟨s', t, rest, ran, rfl, sane', taken, stops⟩ :=
    drainLoop_spec sound cfg.maxDatagramsPerPoll.toNat q s sane
  have shown : (t ++ rest).take ((t ++ rest).length - rest.length) = t := by
    rw [List.length_append, Nat.add_sub_cancel, List.take_left]
  have counted : Taken s { s' with stats := { s'.stats with kernelDrops := s'.kernelDropsRaw.toNat } } t :=
    ⟨taken.counted, taken.truncated⟩
  refine ⟨{ s' with stats := { s'.stats with kernelDrops := s'.kernelDropsRaw.toNat } }, t, rest, ?_, rfl,
    sane'.same rfl rfl rfl rfl, counted, stops⟩
  rw [← sane.ofCfg] at ran
  simp only [drainStep, drainUdp, ran, bind, Except.bind, shown]

/-- Any number of calls. -/
theorem drains_spec (sound : cfg.Sound) (k : Nat) : ∀ (q : List SocketAnswer) (s : Receiver), Sane cfg s →
    ∃ s' rest obs, run drainStep (s, q) (List.replicate k ()) = .ok ((s', rest), obs) ∧
      q = obs.flatMap Prod.fst ++ rest ∧ Taken s s' (obs.flatMap Prod.fst) ∧
      ((∀ d ∈ datagrams (obs.flatMap Prod.fst), 0 < d.length) →
        ∀ o ∈ obs, StopsInTime cfg.maxDatagramsPerPoll.toNat o.1 o.2) := by
  induction k with
  | zero => exact fun q s _ => ⟨s, q, [], rfl, rfl, .quiet rfl rfl, fun _ _ ho => by cases ho⟩
  | succ k ih =>
    intro q s sane
    obtain ⟨u, t, rest, one, rfl, saneU, first, stops⟩ := drainStep_spec sound q sane
    obtain ⟨s', rest', obs, ran, rfl, taken, all⟩ := ih rest u saneU
    refine ⟨s', rest', (t, obs.flatMap Prod.fst ++ rest') :: obs, run_cons.2 ⟨_, _, _, one, ran, rfl⟩, ?_,
      first.append taken, ?_⟩
    · simp
    · intro filled
      have split : datagrams (t ++ obs.flatMap Prod.fst) = datagrams t ++ datagrams (obs.flatMap Prod.fst) :=
        List.filterMap_append
      rw [List.flatMap_cons, split] at filled
      intro o ho
      rcases List.mem_cons.1 ho with rfl | ho
      · exact stops fun d hd => filled d (List.mem_append_left _ hd)
      · exact all (fun d hd => filled d (List.mem_append_right _ hd)) o ho

/-- What `drain_udp` is for: the datagrams `t` that were taken from the socket are counted
once each, those shorter than a header as truncated, and no call stopped early. -/
structure DrainedExactly (cfg : ReceiverConfig) (s s' : Receiver) (t : List SocketAnswer)
    (obs : List (List SocketAnswer × List SocketAnswer)) : Prop where
  counted : s'.tally.counted = s.tally.counted + (datagrams t).length
  truncated : s'.tally.truncated = s.tally.truncated + (datagrams t).countP fun d => d.length < kHeaderSize
  stops : ∀ o ∈ obs, StopsInTime cfg.maxDatagramsPerPoll.toNat o.1 o.2

/-- In any reachable state, for any queue and any number of calls: every datagram that they
take is counted exactly once, and none stops early, just if none of these datagrams is empty. -/
theorem drained_exactly_iff (cfg : ReceiverConfig) (sound : cfg.Sound) (es : List Event) (s : Receiver)
    (rs : List Reaction) (ran : run step (create cfg) es = .ok (s, rs)) (q : List SocketAnswer) (k : Nat) :
    ∃ s' rest obs, run drainStep (s, q) (List.replicate k ()) = .ok ((s', rest), obs) ∧
      q = obs.flatMap Prod.fst ++ rest ∧
      (DrainedExactly cfg s s' (obs.flatMap Prod.fst) obs ↔
        ∀ d ∈ datagrams (obs.flatMap Prod.fst), 0 < d.length) := by
  obtain ⟨s', rest, obs, drained, split, taken, stops⟩ :=
    drains_spec sound k q s (sane_of_trace sound (Trace.of_run ran))
  refine ⟨s', rest, obs, drained, split, ?_, ?_⟩
  · rintro ⟨counted, -, -⟩
    rw [taken.counted] at counted
    have all : (datagrams (obs.flatMap Prod.fst)).countP (fun d => 0 < d.length) =
        (datagrams (obs.flatMap Prod.fst)).length := by omega
    simpa using List.countP_eq_length.1 all
  · intro filled
    refine ⟨?_, ?_, stops filled⟩
    · rw [taken.counted, List.countP_eq_length.2 (by simpa using filled)]
    · rw [taken.truncated]
      congr 1
      apply List.countP_congr
      intro d hd
      simp [filled d hd]

/-- A short datagram and a longer one, drained in one call. -/
theorem drained_exactly_short : ∃ s' rest obs,
    run drainStep (create {}, [.datagram [1, 2, 3] none 0 {}, .datagram emptyMessage none 0 {}])
      (List.replicate 1 ()) = .ok ((s', rest), obs) ∧
    [SocketAnswer.datagram [1, 2, 3] none 0 {}, .datagram emptyMessage none 0 {}] = obs.flatMap Prod.fst ++ rest ∧
    (DrainedExactly {} (create {}) s' (obs.flatMap Prod.fst) obs ↔
      ∀ d ∈ datagrams (obs.flatMap Prod.fst), 0 < d.length) :=
  drained_exactly_iff {} ReceiverConfig.default_sound [] (create {}) [] rfl _ 1

/-- It is false without the condition: an empty datagram is not counted, and the one behind it stays. -/
theorem empty_datagram_uncounted :
    ¬ ∀ (cfg : ReceiverConfig) (es : List Event) (s : Receiver) (rs : List Reaction), cfg.Sound →
      run step (create cfg) es = .ok (s, rs) → ∀ (q rest : List SocketAnswer) (k : Nat) (s' : Receiver)
        (obs : List (List SocketAnswer × List SocketAnswer)),
        run drainStep (s, q) (List.replicate k ()) = .ok ((s', rest), obs) →
        DrainedExactly cfg s s' (obs.flatMap Prod.fst) obs := by
  intro always
  obtain ⟨s', rest, obs, drained, split, iff⟩ := drained_exactly_iff {} ReceiverConfig.default_sound [] (create {}) []
    rfl [.datagram [] none 0 {}, .datagram emptyMessage none 0 {}] 1
  have exact := always {} [] (create {}) [] ReceiverConfig.default_sound rfl _ rest 1 s' obs drained
  have taken : ((run drainStep (create {}, [.datagram [] none 0 {}, .datagram emptyMessage none 0 {}])
      (List.replicate 1 ())).toOption.map fun r => r.2.flatMap Prod.fst) = some [.datagram [] none 0 {}] := by
    decide +kernel
  rw [drained] at taken
  simp only [Except.toOption, Option.map_some, Option.some.injEq] at taken
  have filled := iff.1 exact
  rw [taken] at filled
  exact absurd (filled [] (by simp [datagrams])) (by simp)

end Loop

end Receiver

end IpcRelay
