import IpcRelay.Bridge.Bridge
import IpcRelay.System.Assembled

/-!
# Payload integrity from end to end

A bridge run emits datagrams, the network does with them what it likes, and
what arrives is parsed and reassembled. `Emitted` says which message of which
call a datagram of the run belongs to, and `Emitted.same_call` that the
association key tells the call: source ids are distinct and the counter of a
source does not repeat. So an entry never mixes two messages, and `assembled`
gives the result, `end_to_end_integrity`.
-/

namespace IpcRelay

open Wire Machine

namespace Bridge

/-- The number of earlier calls for the same source, which is the sequence number. -/
def callsBefore (calls : List Call) (p index : Nat) : Nat := (calls.take p).countP fun c => c.index = index

/-- The datagram is a fragment of the message of the call at place `p`. -/
def Emitted (cfg : BridgeConfig) (calls : List Call) (p : Nat) (m : Outgoing) (d : Bytes) : Prop :=
  ∃ c src, calls[p]? = some c ∧ cfg.sources[c.index]? = some src ∧
    Splits cfg src (UInt64.ofNat (callsBefore calls p c.index)) c m ∧ ∃ i < m.count, d = m.datagram i

section Run

variable {cfg : BridgeConfig}

/-- The counters after a history: one step for each call of the source. -/
structure Numbered (cfg : BridgeConfig) (h : List (Call × Transmitted)) (b : Bridge) : Prop where
  same : b.cfg = cfg
  next : ∀ j, j < cfg.sources.length →
    b.nextSequence j = some (UInt64.ofNat (h.countP fun x => x.1.index = j))

theorem numbered_start (cfg : BridgeConfig) : Numbered cfg [] (start cfg) where
  same := rfl
  next j hj := by simp [nextSequence, start, hj]

/-- What the configuration promises to `transmit`. -/
structure Fits (cfg : BridgeConfig) : Prop where
  pos : 0 < cfg.fragmentPayload.toNat
  fits : cfg.fragmentPayload.toNat + kHeaderSize ≤ kMaxUdpPayload

theorem fits_of_accepted {env : NetEnv} {file : ConfigFile} (ok : buildBridgeConfig env file = (cfg, [])) : Fits cfg where
  pos := by
    have payload := accepted_payload ok
    have size := accepted_datagram_size ok
    omega
  fits := by rw [accepted_payload ok]; exact (accepted_datagram_size ok).2

theorem Numbered.transmit {h : List (Call × Transmitted)} {b : Bridge} {c : Call} (num : Numbered cfg h b)
    (fits : Fits cfg) (known : c.index < cfg.sources.length) :
    ∃ src b' out, cfg.sources[c.index]? = some src ∧ transmit b c = .ok (b', out) ∧
      Numbered cfg (h ++ [(c, out)]) b' ∧
      ∀ d ∈ out.datagrams, ∃ m, Splits cfg src (UInt64.ofNat (h.countP fun x => x.1.index = c.index)) c m ∧
        ∃ i < m.count, d = m.datagram i := by
  obtain ⟨src, hsrc⟩ : ∃ src, cfg.sources[c.index]? = some src := ⟨_, List.getElem?_eq_getElem known⟩
  have seq := num.next c.index known
  have same := num.same
  subst same
  obtain ⟨b', out, ran, cfg', next, emitted, _⟩ := transmit_spec fits.fits fits.pos hsrc seq
  refine ⟨src, b', out, hsrc, ran, ⟨cfg', ?_⟩, ?_⟩
  · intro j hj
    rw [next j, List.countP_append, List.countP_singleton]
    by_cases hjc : j = c.index
    · subst hjc; simp
    · simpa [hjc, Ne.symm hjc] using num.next j hj
  · intro d hd
    rcases emitted with silent | ⟨m, splits, n, le, all⟩
    · rw [silent] at hd; cases hd
    · rw [all] at hd
      obtain ⟨i, hi, rfl⟩ := List.mem_map.1 hd
      exact ⟨m, splits, i, by have := List.mem_range.1 hi; omega, rfl⟩

theorem numbered_of_trace {h : List (Call × Transmitted)} {b : Bridge} (fits : Fits cfg)
    (tr : Trace Bridge.transmit (start cfg) h b) : Numbered cfg h b := by
  refine tr.history (numbered_start cfg) ?_
  intro g u c u' out num hs
  have known := known_of_transmit hs
  rw [num.same] at known
  obtain ⟨_, b', out', _, ran, num', _⟩ := num.transmit fits known
  rw [hs] at ran
  cases ran
  exact num'

/-- A whole run: every datagram it emits is a fragment of the message of one of its calls. -/
theorem run_emitted {calls : List Call} (fits : Fits cfg) (known : ∀ c ∈ calls, c.index < cfg.sources.length) :
    ∃ b outs, run Bridge.transmit (start cfg) calls = .ok (b, outs) ∧
      ∀ out ∈ outs, ∀ d ∈ out.datagrams, ∃ p m, Emitted cfg calls p m d := by
  have safe : ∀ (u : Bridge) (c : Call), (∃ h, Numbered cfg h u) → c.index < cfg.sources.length →
      ∃ u' out, Bridge.transmit u c = .ok (u', out) ∧ ∃ h, Numbered cfg h u' := by
    rintro u c ⟨h, num⟩ hc
    obtain ⟨_, u', out, _, ran, num', _⟩ := num.transmit fits hc
    exact ⟨u', out, ran, _, num'⟩
  obtain ⟨b, outs, ran, _⟩ := run_total_on safe calls ⟨[], numbered_start cfg⟩ known
  refine ⟨b, outs, ran, ?_⟩
  intro out hout d hd
  obtain ⟨p, hp⟩ := List.getElem?_of_mem hout
  have len := run_length ran
  obtain ⟨c, hc⟩ : ∃ c, calls[p]? = some c :=
    ⟨_, List.getElem?_eq_getElem (by have := (List.getElem?_eq_some_iff.1 hp).1; omega)⟩
  have here : (calls.zip outs)[p]? = some (c, out) := List.getElem?_zip_eq_some.2 ⟨hc, hp⟩
  have past : ((calls.zip outs).take p).map Prod.fst = calls.take p := by
    rw [List.map_take, List.map_fst_zip (by omega)]
  obtain ⟨u, u', _, hs, before, _⟩ := run_at ran here
  have num := numbered_of_trace fits before
  obtain ⟨src, _, out', hsrc, ran', _, emitted⟩ := num.transmit fits (known c (List.mem_of_getElem? hc))
  rw [hs] at ran'
  cases ran'
  obtain ⟨m, splits, i, hi, eq⟩ := emitted d hd
  have count : ((calls.zip outs).take p).countP (fun x => x.1.index = c.index) = callsBefore calls p c.index := by
    rw [callsBefore, ← past, List.countP_map]
    rfl
  rw [count] at splits
  exact ⟨p, m, c, src, hc, hsrc, splits, i, hi, eq⟩

end Run

section Keys

variable {cfg : BridgeConfig} {calls : List Call} {p p' index : Nat} {c : Call}

theorem callsBefore_le (le : p ≤ p') : callsBefore calls p index ≤ callsBefore calls p' index :=
  List.Sublist.countP_le (List.take_sublist_take_left le)

/-- A call counts for the later calls of its source. -/
theorem callsBefore_lt (hc : calls[p]? = some c) (lt : p < p') :
    callsBefore calls p c.index < callsBefore calls p' c.index := by
  have next : callsBefore calls (p + 1) c.index = callsBefore calls p c.index + 1 := by
    simp [callsBefore, List.take_add_one, hc]
  have : callsBefore calls (p + 1) c.index ≤ callsBefore calls p' c.index := callsBefore_le lt
  omega

theorem callsBefore_lt_total (hc : calls[p]? = some c) :
    callsBefore calls p c.index < calls.countP fun c' => c'.index = c.index := by
  have lt : p < calls.length := (List.getElem?_eq_some_iff.1 hc).1
  have all : callsBefore calls calls.length c.index = calls.countP fun c' => c'.index = c.index := by
    rw [callsBefore, List.take_length]
  rw [← all]
  exact callsBefore_lt hc lt

theorem Splits.unique {src : BridgeSourceConfig} {seq : UInt64} {m m' : Outgoing} (h : Splits cfg src seq c m)
    (h' : Splits cfg src seq c m') : m = m' :=
  Outgoing.ext (h.sourceId.trans h'.sourceId.symm) (h.sequence.trans h'.sequence.symm)
    (h.timestampNs.trans h'.timestampNs.symm) (h.flags.trans h'.flags.symm) (h.data.trans h'.data.symm)
    (h.chunk.trans h'.chunk.symm)

theorem index_of_id {i j : Nat} {src src' : BridgeSourceConfig} (ids : (cfg.sources.map BridgeSourceConfig.id).Nodup)
    (hi : cfg.sources[i]? = some src) (hj : cfg.sources[j]? = some src') (same : src.id = src'.id) : i = j := by
  have lt : i < (cfg.sources.map BridgeSourceConfig.id).length := by
    rw [List.length_map]; exact (List.getElem?_eq_some_iff.1 hi).1
  apply (List.getElem?_inj lt ids).1
  rw [List.getElem?_map, List.getElem?_map, hi, hj, Option.map_some, Option.map_some, same]

/-- The association key of a datagram tells the message it is a fragment of. -/
theorem Emitted.same_call {m m' : Outgoing} {d d' : Bytes} (ids : (cfg.sources.map BridgeSourceConfig.id).Nodup)
    (noWrap : ∀ index, (calls.countP fun c => c.index = index) ≤ 2 ^ 64) (em : Emitted cfg calls p m d)
    (em' : Emitted cfg calls p' m' d') (key : m.key = m'.key) : m = m' := by
  obtain ⟨c, src, hc, hsrc, splits, _⟩ := em
  obtain ⟨c', src', hc', hsrc', splits', _⟩ := em'
  have id : m.sourceId = m'.sourceId := congrArg Key.sourceId key
  have seq : m.sequence = m'.sequence := congrArg Key.sequence key
  rw [splits.sourceId, splits'.sourceId] at id
  have index := index_of_id ids hsrc hsrc' id
  have total := callsBefore_lt_total hc
  have total' := callsBefore_lt_total hc'
  have small := noWrap c.index
  rw [splits.sequence, splits'.sequence, ← index] at seq
  rw [← index] at total'
  have place : callsBefore calls p c.index = callsBefore calls p' c.index := by
    have := congrArg UInt64.toNat seq
    rwa [UInt64.toNat_ofNat_of_lt' (show _ < 2 ^ 64 by omega),
      UInt64.toNat_ofNat_of_lt' (show _ < 2 ^ 64 by omega)] at this
  have same : p = p' := by
    rcases Nat.lt_trichotomy p p' with lt | eq | lt
    · have := callsBefore_lt hc lt; omega
    · exact eq
    · have := callsBefore_lt hc' lt
      rw [← index] at this
      omega
  subst same
  rw [hc] at hc'
  cases hc'
  rw [hsrc] at hsrc'
  cases hsrc'
  exact splits.unique splits'

end Keys

end Bridge

namespace Reassembler

/-- Something that happens at the receiver's end: a datagram arrives, or the store is swept. -/
inductive NetEvent where
  | arrive (datagram : Bytes) (now : UInt64)
  | expire (now : UInt64)

/-- The call that an event makes: what `parse_datagram` rejects makes none. -/
def NetEvent.call : NetEvent → Option Op
  | .arrive d now => (Fragment.ofDatagram d).map fun f => .add f now
  | .expire now => some (.expire now)

end Reassembler

open Reassembler Bridge

/-- What the receiver is to report for the call at place `p`. -/
def messageOf (cfg : BridgeConfig) (calls : List Call) (p : Nat) (c : Call) (src : BridgeSourceConfig) :
    CompletedMessage where
  sourceId := src.id
  sequence := UInt64.ofNat (callsBefore calls p c.index)
  timestampNs := c.timestampNs
  flags := if fragmentCountFor c.data.length cfg.fragmentPayload.toNat > 1 then c.flags ||| kFlagFragmented else c.flags
  data := c.data
  length := c.data.length

section EndToEnd

variable {cfg : BridgeConfig} {calls : List Call}

theorem Bridge.Emitted.own {p : Nat} {m : Outgoing} {f : Fragment} (em : Emitted cfg calls p m f.datagram) : m.Own f := by
  obtain ⟨_, _, _, _, _, i, hi, eq⟩ := em
  exact ⟨i, hi, eq⟩

theorem Bridge.Splits.completed {p : Nat} {m : Outgoing} {c : Call} {src : BridgeSourceConfig}
    (splits : Splits cfg src (UInt64.ofNat (callsBefore calls p c.index)) c m) :
    m.completed = messageOf cfg calls p c src := by
  simp only [Outgoing.completed, messageOf, Outgoing.wireFlags, Outgoing.count, splits.sourceId, splits.sequence,
    splits.timestampNs, splits.flags, splits.data, splits.chunk]

theorem Bridge.Emitted.completed {p : Nat} {m : Outgoing} {d : Bytes} (em : Emitted cfg calls p m d) :
    ∃ c src, calls[p]? = some c ∧ cfg.sources[c.index]? = some src ∧ m.completed = messageOf cfg calls p c src := by
  obtain ⟨c, src, hc, hsrc, splits, _⟩ := em
  exact ⟨c, src, hc, hsrc, splits.completed⟩

/-- A completed message is one of the bridge's, whatever the network did with the datagrams. -/
theorem completed_is_sent {rcfg : Reassembler.Config} (ids : (cfg.sources.map BridgeSourceConfig.id).Nodup)
    (noWrap : ∀ index, (calls.countP fun c => c.index = index) ≤ 2 ^ 64) (pos : 0 < rcfg.maxPending)
    {h : History} {s s' : Reassembler} (tr : Trace (step rcfg) {} h s) {f : Fragment} {now : UInt64} {o : AddOutcome}
    (hs : step rcfg s (.add f now) = .ok (s', .added o)) (complete : o.result = .complete)
    (sent : ∀ x ∈ h ++ [(Op.add f now, Outcome.added o)], ∀ g t, x.1 = Op.add g t →
      ∃ p m, Emitted cfg calls p m g.datagram) :
    ∃ p m, Emitted cfg calls p m f.datagram ∧ o.out = m.completed := by
  obtain ⟨inv, tracked⟩ := tracked_of_trace pos tr
  obtain ⟨p, m, em⟩ := sent (.add f now, .added o) (by simp) f now rfl
  have own : m.Own f := em.own
  refine ⟨p, m, em, ?_⟩
  cases stepCase_of_step inv pos hs with
  | add c =>
  by_cases several : f.Several
  · obtain ⟨e, holds, hout, full, _⟩ := completed_holds inv tracked c several complete
    rw [own.key] at holds hout
    rw [hout]
    apply Outgoing.assembled holds full
    intro a ha
    -- the fragment came from the bridge, and its key is that of the message
    obtain ⟨oa, mem⟩ := arrival_in_history ha
    obtain ⟨p', m', em'⟩ := sent _ mem a.frag a.now rfl
    have own' : m'.Own a.frag := em'.own
    have key : m.key = m'.key := (holds.key a ha).symm.trans own'.key
    rw [em.same_call ids noWrap em' key]
    exact own'
  · cases c with
    | whole => exact own.message several
    | oversize several' => exact absurd several' several
    | opened several' => exact absurd several' several
    | displaced several' => exact absurd several' several
    | inconsistent several' => exact absurd several' several
    | duplicate several' => exact absurd several' several
    | stored several' => exact absurd several' several
    | completed several' => exact absurd several' several

end EndToEnd

/-- The FRAGMENTED bit does not touch the MULTIPART one. -/
theorem multipart_kept (flags : UInt16) :
    (flags ||| kFlagFragmented) &&& kFlagMultipart = flags &&& kFlagMultipart := by
  apply UInt16.toNat_inj.1
  rw [UInt16.toNat_and, UInt16.toNat_or, UInt16.toNat_and, Nat.and_or_distrib_right]
  show (flags.toNat &&& 2) ||| 0 = flags.toNat &&& 2
  exact Nat.or_zero _

/-- Whatever the network does with the datagrams of one bridge run, a message that the
store reports complete is one that the bridge was given: its source, its number, its
bytes, its time stamp and its flags. -/
theorem end_to_end_integrity (env : NetEnv) (file : ConfigFile) (cfg : BridgeConfig)
    (ok : buildBridgeConfig env file = (cfg, [])) (calls : List Call)
    (known : ∀ c ∈ calls, c.index < cfg.sources.length)
    (noWrap : ∀ index, (calls.countP fun c => c.index = index) ≤ 2 ^ 64)
    (rcfg : Reassembler.Config) (pos : 0 < rcfg.maxPending) :
    ∃ b outs, run transmit (Bridge.start cfg) calls = .ok (b, outs) ∧
      ∀ events : List NetEvent, (∀ d now, .arrive d now ∈ events → ∃ out ∈ outs, d ∈ out.datagrams) →
        ∃ s os, run (step rcfg) {} (events.filterMap NetEvent.call) = .ok (s, os) ∧
          ∀ (i : Nat) f now o, ((events.filterMap NetEvent.call).zip os)[i]? = some (.add f now, .added o) →
            o.result = .complete →
            ∃ p c src, calls[p]? = some c ∧ cfg.sources[c.index]? = some src ∧ o.out = messageOf cfg calls p c src ∧
              o.out.flags &&& kFlagMultipart = c.flags &&& kFlagMultipart ∧
              (o.out.flags &&& kFlagFragmented ≠ 0 ↔
                fragmentCountFor c.data.length cfg.fragmentPayload.toNat > 1) := by
  obtain ⟨b, outs, ran, emitted⟩ := run_emitted (fits_of_accepted ok) known
  refine ⟨b, outs, ran, ?_⟩
  intro events network
  obtain ⟨s, os, rran, _⟩ := run_ok pos (events.filterMap NetEvent.call) (inv_init rcfg)
  refine ⟨s, os, rran, ?_⟩
  intro i f now o hi complete
  obtain ⟨u, u', _, hs, before, split⟩ := run_at rran hi
  have sent : ∀ x ∈ (events.filterMap NetEvent.call).zip os, ∀ g t, x.1 = Op.add g t →
      ∃ p m, Emitted cfg calls p m g.datagram := by
    intro x hx g t eq
    obtain ⟨ev, hev, hcall⟩ := List.mem_filterMap.1 (List.of_mem_zip hx).1
    rw [eq] at hcall
    cases ev with
    | expire t' => cases hcall
    | arrive d t' =>
      obtain ⟨g', hg, eq'⟩ := Option.map_eq_some_iff.1 hcall
      cases eq'
      rw [Fragment.ofDatagram_some hg]
      obtain ⟨out, hout, hd⟩ := network d t hev
      exact emitted out hout d hd
  have sent' : ∀ x ∈ ((events.filterMap NetEvent.call).zip os).take i ++ [(Op.add f now, Outcome.added o)], ∀ g t,
      x.1 = Op.add g t → ∃ p m, Emitted cfg calls p m g.datagram := by
    rw [← split]
    exact fun x hx => sent x (List.mem_of_mem_take hx)
  obtain ⟨p, m, em, hout⟩ := completed_is_sent (accepted_ids ok) noWrap pos before hs complete sent'
  obtain ⟨c, src, hc, hsrc, msg⟩ := em.completed
  refine ⟨p, c, src, hc, hsrc, hout.trans msg, ?_, ?_⟩
  · rw [hout, msg, messageOf]
    dsimp only
    split
    · exact multipart_kept c.flags
    · rfl
  · have count : m.count = fragmentCountFor c.data.length cfg.fragmentPayload.toNat := by
      obtain ⟨c', _, hc', _, splits, _⟩ := em
      rw [hc] at hc'
      cases hc'
      rw [Outgoing.count, splits.data, splits.chunk]
    rw [hout, ← count]
    exact em.own.flagged_iff

section Runs

/-- A message of three bytes. -/
def labCall : Call := ⟨0, [1, 2, 3], kFlagMultipart, 5, fun _ => .sent 46⟩

/-- Its two fragments. -/
def labFragment (second : Bool) : Fragment :=
  .encode
    { flags := 3, sourceId := 7, messageLength := 3, timestampNs := 5, fragmentCount := 2,
      fragmentIndex := if second then 1 else 0, fragmentOffset := if second then 2 else 0,
      fragmentLength := if second then 1 else 2 }
    (if second then [3] else [1, 2]) rfl (by cases second <;> decide +kernel) (by cases second <;> rfl)

def labDatagram (second : Bool) : Bytes := (labFragment second).datagram

theorem labCall_outcome : observations transmit (Bridge.start labCfg) [labCall] =
    some [⟨true, [labDatagram false, labDatagram true]⟩] := by decide +kernel

/-- They arrive the other way round, one of them twice. -/
def labEvents : List NetEvent := [.arrive (labDatagram true) 0, .arrive (labDatagram true) 1, .arrive (labDatagram false) 2]

theorem labEvents_outcomes : observations (step {}) {} (labEvents.filterMap NetEvent.call) =
    some [.added ⟨.incomplete, {}, true⟩, .added ⟨.duplicate, {}, false⟩,
      .added ⟨.complete, { sourceId := 7, timestampNs := 5, flags := 3, data := [1, 2, 3], length := 3 }, false⟩] := by
  decide +kernel

theorem end_to_end_integrity_lab : ∃ b outs s os f o, run transmit (Bridge.start labCfg) [labCall] = .ok (b, outs) ∧
    run (step {}) {} (labEvents.filterMap NetEvent.call) = .ok (s, os) ∧
    ((labEvents.filterMap NetEvent.call).zip os)[2]? = some (.add f 2, .added o) ∧ o.result = .complete ∧
    ∃ p c src, [labCall][p]? = some c ∧ labCfg.sources[c.index]? = some src ∧
      o.out = messageOf labCfg [labCall] p c src := by
  have known : ∀ c ∈ [labCall], c.index < labCfg.sources.length := by
    intro c hc
    obtain rfl := List.mem_singleton.1 hc
    decide +kernel
  have noWrap : ∀ index, ([labCall].countP fun c => c.index = index) ≤ 2 ^ 64 := fun index =>
    List.countP_le_length.trans (by decide)
  obtain ⟨b, outs, ran, all⟩ := end_to_end_integrity labEnv labFile labCfg labFile_accepted [labCall] known noWrap {}
    (by decide)
  obtain rfl := observations_of_run ran labCall_outcome
  obtain ⟨s, os, rran, sent⟩ := all labEvents (by
    intro d now mem
    simp only [labEvents, List.mem_cons, NetEvent.arrive.injEq, List.not_mem_nil, or_false] at mem
    refine ⟨_, List.mem_singleton_self _, ?_⟩
    rcases mem with ⟨rfl, _⟩ | ⟨rfl, _⟩ | ⟨rfl, _⟩ <;> simp)
  obtain rfl := observations_of_run rran labEvents_outcomes
  have calls : labEvents.filterMap NetEvent.call =
      [.add (labFragment true) 0, .add (labFragment true) 1, .add (labFragment false) 2] := by
    simp [labEvents, NetEvent.call, labDatagram, Fragment.ofDatagram_datagram]
  rw [calls] at rran sent
  obtain ⟨p, c, src, hc, hsrc, out, _⟩ := sent 2 (labFragment false) 2 _ rfl rfl
  exact ⟨b, _, s, _, labFragment false, _, ran, by rw [calls]; exact rran, by rw [calls]; rfl, rfl, p, c, src, hc, hsrc, out⟩

end Runs

end IpcRelay
