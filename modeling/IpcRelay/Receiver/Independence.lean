import IpcRelay.Receiver.Accounting

/-!
# Sources below the pending bound

While the store has room, `add` looks at the entry of its own key only
(`addAt`), and so does the tracker at its own source. The loop of `expire`
does not: it stops at the first young key of `order_`, whosever it is. So
deleting the datagrams of the other sources leaves what a source is told and
what is counted for it unchanged as long as the queue hides the same overdue
entries of the source in both runs (`independent`); where it does not, another
source keeps an entry from expiring (`other_source_interferes`).
-/

namespace IpcRelay

open Wire Reassembler ExpiryQueue Capture Machine

namespace Reassembler

/-- What `add` does to the entry of the fragment's own key, where the store has room. -/
def addAt (cfg : Config) (slot : Option Entry) (f : Fragment) (now : UInt64) : Option Entry × AddOutcome :=
  if ¬ f.Several then (slot, ⟨.complete, f.message, true⟩)
  else if f.hdr.messageLength.toNat > cfg.maxMessageLength then (slot, ⟨.malformed, {}, false⟩)
  else match slot with
    | none => (some ((openEntry f.hdr now).store f), ⟨.incomplete, {}, true⟩)
    | some e =>
      if f.hdr.fragmentCount ≠ e.fragmentCount ∨ f.hdr.messageLength ≠ e.messageLength then
        (none, ⟨.malformed, {}, false⟩)
      else if e.received[f.hdr.fragmentIndex.toNat]? = some true then (some e, ⟨.duplicate, {}, false⟩)
      else if e.fragmentsReceived.toNat + 1 < e.fragmentCount.toNat then
        (some (e.store f), ⟨.incomplete, {}, false⟩)
      else (none, ⟨.complete, completedOf f.key (e.store f), false⟩)

/-- Where the store has room, `add` is local to its key. -/
theorem AddCase.local {cfg : Config} {s r : Reassembler} {f : Fragment} {now : UInt64} {o : AddOutcome}
    (c : AddCase cfg s f now r o) (room : s.entries.size < cfg.maxPending) :
    o = (addAt cfg (s.entries.lookup f.key) f now).2 ∧
      ∀ j, r.entries.lookup j =
        if j = f.key then (addAt cfg (s.entries.lookup f.key) f now).1 else s.entries.lookup j := by
  have same : ∀ j, s.entries.lookup j = if j = f.key then s.entries.lookup f.key else s.entries.lookup j := by
    intro j
    split
    next eq => rw [eq]
    next => rfl
  unfold addAt
  cases c with
  | whole single =>
    rw [if_pos single]
    exact ⟨rfl, same⟩
  | oversize several big =>
    rw [if_neg (not_not.2 several), if_pos big]
    exact ⟨rfl, same⟩
  | displaced several fits new full => exact absurd full (Nat.ne_of_lt room)
  | opened several fits new =>
    rw [if_neg (not_not.2 several), if_neg (Nat.not_lt_of_le fits), new]
    exact ⟨rfl, fun j => KeyMap.lookup_insert_eq _ _ _ _⟩
  | inconsistent several fits old mismatch =>
    rw [if_neg (not_not.2 several), if_neg (Nat.not_lt_of_le fits), old]
    dsimp only
    rw [if_pos (not_consistent.2 mismatch)]
    exact ⟨rfl, fun j => KeyMap.lookup_erase_eq _ _ _⟩
  | duplicate several fits old agree held =>
    rw [if_neg (not_not.2 several), if_neg (Nat.not_lt_of_le fits), old]
    dsimp only
    rw [if_neg (fun h => not_consistent.1 h agree), if_pos held]
    rw [old] at same
    exact ⟨rfl, same⟩
  | stored several fits old agree fresh more =>
    rw [if_neg (not_not.2 several), if_neg (Nat.not_lt_of_le fits), old]
    dsimp only
    rw [if_neg (fun h => not_consistent.1 h agree), if_neg (by rw [fresh]; simp), if_pos more]
    exact ⟨rfl, fun j => KeyMap.lookup_insert_eq _ _ _ _⟩
  | completed several fits old agree fresh last =>
    rw [if_neg (not_not.2 several), if_neg (Nat.not_lt_of_le fits), old]
    dsimp only
    rw [if_neg (fun h => not_consistent.1 h agree), if_neg (by rw [fresh]; simp), if_neg (by omega)]
    exact ⟨rfl, fun j => KeyMap.lookup_erase_eq _ _ _⟩

end Reassembler

namespace Receiver

/-- The source that a datagram counts for. -/
def sourceOf (data : Bytes) : Option UInt32 :=
  match parseDatagram data {} with
  | .ok p => blamed p
  | .error _ => none

/-- The event is not a datagram of another source. -/
def concerns (k : UInt32) : Event → Bool
  | .datagram data _ _ => sourceOf data = none ∨ sourceOf data = some k
  | _ => true

/-- The run without the datagrams of the other sources. -/
def ofSource (k : UInt32) (es : List Event) : List Event := es.filter (concerns k)

/-- The messages of a source. -/
def messagesOf (k : UInt32) (rs : List Reaction) : List CompletedMessage :=
  (messages rs).filter fun m => m.sourceId = k

/-- The queues of the two receivers hide the same overdue entries of source `k` from a sweep. -/
def HidesAlike (k : UInt32) (now : UInt64) (s t : Receiver) : Prop :=
  ∀ key e, key.sourceId = k → s.reassembler.entries.lookup key = some e →
    due s.cfg.reassemblerConfig now e = true →
    (Hidden (due s.cfg.reassemblerConfig now) s.reassembler.order s.reassembler.entries key ↔
      Hidden (due t.cfg.reassemblerConfig now) t.reassembler.order t.reassembler.entries key)

/-- `t` is what source `k` sees of `s`. -/
structure View (k : UInt32) (s t : Receiver) : Prop where
  cfg : t.cfg = s.cfg
  own : ∀ key, key.sourceId = k → t.reassembler.entries.lookup key = s.reassembler.entries.lookup key
  other : ∀ key, key.sourceId ≠ k → t.reassembler.entries.lookup key = none
  tracker : t.sequences.stateOf k = s.sequences.stateOf k
  block : t.reception k = s.reception k

section Step

variable {k : UInt32} {s s' t t' : Receiver} {e : Event} {r q : Reaction}

theorem View.size_le (view : View k s t) : t.reassembler.pending ≤ s.reassembler.pending := by
  apply KeyMap.size_le_of_keys
  intro key v hv
  by_cases own : key.sourceId = k
  · rw [view.own key own] at hv
    exact ⟨v, hv⟩
  · rw [view.other key own] at hv
    cases hv

theorem sourceOf_fragment (f : Fragment) : sourceOf f.datagram = some f.hdr.sourceId := by
  rw [sourceOf, f.accepted]
  rfl

theorem sourceOf_rejected {data : Bytes} {p : Parsed} (parse : parseDatagram data {} = .ok p) :
    sourceOf data = blamed p := by
  rw [sourceOf, parse]

/-- What the tracker answers depends on the record of the source. -/
theorem observeNew_local {a b : SequenceTracker} {h : Header} (same : a.stateOf h.sourceId = b.stateOf h.sourceId)
    (new : Bool) : (observeNew a h new).2 = (observeNew b h new).2 ∧
      (observeNew a h new).1.stateOf h.sourceId = (observeNew b h new).1.stateOf h.sourceId := by
  unfold observeNew
  split
  · refine ⟨?_, ?_⟩
    · exact congrArg (fun s => some (SequenceTracker.observeState s h.sequence).2) same
    · rw [SequenceTracker.stateOf_observe, SequenceTracker.stateOf_observe, if_pos rfl, if_pos rfl, same]
  · exact ⟨rfl, same⟩

theorem observeNew_other {a : SequenceTracker} {h : Header} (other : h.sourceId ≠ k) (new : Bool) :
    (observeNew a h new).1.stateOf k = a.stateOf k := by
  unfold observeNew
  split
  · rw [SequenceTracker.stateOf_observe, if_neg (Ne.symm other)]
  · rfl

/-- A datagram of another source does not show in the view. -/
theorem View.skip (view : View k s t) (room : s.reassembler.pending < s.cfg.reassemblerConfig.maxPending)
    (stepped : Stepped s e s' r) (foreign : concerns k e = false) :
    View k s' t ∧ ∀ m, r.message = some m → m.sourceId ≠ k := by
  obtain ⟨front, cfg, blocks, _⟩ := stepped
  generalize hu : s'.reassembler = u at front
  generalize hv : s'.sequences = v at front
  cases front with
  | quiet datagram =>
    cases e with
    | datagram data now io => exact absurd rfl (datagram data now io)
    | _ => cases foreign
  | swept => cases foreign
  | @rejected data now io p parse bad =>
    simp only [concerns, sourceOf_rejected parse, decide_eq_false_iff_not, not_or] at foreign
    refine ⟨⟨view.cfg.trans cfg.symm, ?_, view.other, ?_, ?_⟩, by simp [Reaction.message]⟩
    · intro key own; rw [hu]; exact view.own key own
    · rw [hv]; exact view.tracker
    · rw [blocks k, view.block]
      simp [ReceiverSourceStats.react, foreign.2]
  | @added f now io _ o c =>
    have other : f.hdr.sourceId ≠ k := by simpa [concerns, sourceOf_fragment] using foreign
    obtain ⟨_, entries⟩ := c.local room
    refine ⟨⟨view.cfg.trans cfg.symm, ?_, view.other, ?_, ?_⟩, ?_⟩
    · intro key own
      have ne : key ≠ f.key := fun eq => other (by rw [← own, eq]; rfl)
      rw [hu, entries key, if_neg ne]
      exact view.own key own
    · rw [hv, observeNew_other other]; exact view.tracker
    · rw [blocks k, view.block]
      simp [ReceiverSourceStats.react, other]
    · intro m hm
      simp only [Reaction.message] at hm
      split at hm
      next complete =>
        cases hm
        rw [(c.out_ok complete).1]
        exact other
      next => cases hm

/-- The two sweeps remove the same entries of the source. -/
theorem swept_alike {due : Entry → Bool} {q q' u u' popped popped' : List Key} {a b m n : Entries}
    {out out' : List (Key × Entry)} (swa : Swept due q a popped q' m out) (swb : Swept due u b popped' u' n out')
    (own : ∀ key, key.sourceId = k → b.lookup key = a.lookup key)
    (alike : ∀ key e, key.sourceId = k → a.lookup key = some e → due e = true →
      (Hidden due q a key ↔ Hidden due u b key)) :
    (∀ key, key.sourceId = k → n.lookup key = m.lookup key) ∧
      (out.countP fun x => x.1.sourceId = k) = out'.countP fun x => x.1.sourceId = k := by
  have same : ∀ key, key.sourceId = k → n.lookup key = m.lookup key := by
    intro key hk
    cases ha : a.lookup key with
    | none =>
      have hb := (own key hk).trans ha
      rw [swa.lookup key, swb.lookup key, ha, hb, ite_self, ite_self]
    | some e =>
      have hb := (own key hk).trans ha
      by_cases hd : due e = true
      · by_cases hidden : Hidden due q a key
        · rw [(swa.survives_iff ha hd).2 hidden, (swb.survives_iff hb hd).2 ((alike key e hk ha hd).1 hidden)]
        · rw [swa.gone ha hd hidden, swb.gone hb hd fun h => hidden ((alike key e hk ha hd).2 h)]
      · have young : due e = false := by simpa using hd
        rw [swa.keeps ha young, swb.keeps hb young]
  refine ⟨same, ?_⟩
  rw [List.countP_eq_length_filter, List.countP_eq_length_filter]
  apply List.Perm.length_eq
  rw [List.perm_ext_iff_of_nodup ((swa.once.of_map _).filter _) ((swb.once.of_map _).filter _)]
  rintro ⟨key, e⟩
  simp only [List.mem_filter, swa.removed_iff, swb.removed_iff, decide_eq_true_eq]
  constructor
  · rintro ⟨⟨ha, gone⟩, hk⟩
    exact ⟨⟨(own key hk).trans ha, (same key hk).trans gone⟩, hk⟩
  · rintro ⟨⟨hb, gone⟩, hk⟩
    exact ⟨⟨(own key hk).symm.trans hb, (same key hk).symm.trans gone⟩, hk⟩

/-- Any other event acts on both alike. -/
theorem View.step (view : View k s t)
    (room : s.reassembler.pending < s.cfg.reassemblerConfig.maxPending)
    (hides : ∀ now, e = .sweep now → HidesAlike k now s t) (ours : concerns k e = true)
    (a : Stepped s e s' r) (b : Stepped t e t' q) :
    View k s' t' ∧ q.message.toList = (r.message.toList.filter fun m => m.sourceId = k) := by
  have roomT : t.reassembler.pending < t.cfg.reassemblerConfig.maxPending := by
    rw [view.cfg]; exact view.size_le.trans_lt room
  obtain ⟨frontA, cfgA, blocksA, _⟩ := a
  obtain ⟨frontB, cfgB, blocksB, _⟩ := b
  have cfg : t'.cfg = s'.cfg := by rw [cfgA, cfgB, view.cfg]
  -- the blocks agree again if the two reactions count alike
  have block : (∀ x : ReceiverSourceStats, x.react k q = x.react k r) → t'.reception k = s'.reception k := by
    intro same
    rw [blocksA k, blocksB k, view.block, same]
  generalize hu : s'.reassembler = u at frontA
  generalize hv : s'.sequences = v at frontA
  generalize hu' : t'.reassembler = u' at frontB
  generalize hv' : t'.sequences = v' at frontB
  cases frontA with
  | quiet datagram sweep =>
    cases frontB with
    | quiet =>
      refine ⟨⟨cfg, ?_, ?_, ?_, block fun x => rfl⟩, rfl⟩
      · rw [hu, hu']; exact view.own
      · rw [hu']; exact view.other
      · rw [hv, hv']; exact view.tracker
    | rejected => exact absurd rfl (datagram _ _ _)
    | added => exact absurd rfl (datagram _ _ _)
    | swept => exact absurd rfl (sweep _)
  | @rejected data now io p parse bad =>
    cases frontB with
    | quiet datagram => exact absurd rfl (datagram _ _ _)
    | added c =>
      rw [Fragment.accepted] at parse
      cases parse
      exact absurd rfl bad
    | @rejected _ _ _ p' parse' bad' =>
      rw [parse] at parse'
      cases parse'
      refine ⟨⟨cfg, ?_, ?_, ?_, block fun x => rfl⟩, rfl⟩
      · rw [hu, hu']; exact view.own
      · rw [hu']; exact view.other
      · rw [hv, hv']; exact view.tracker
  | @swept now u o c =>
    generalize he : Event.sweep now = e at frontB
    cases frontB with
    | quiet _ sweep => exact absurd he.symm (sweep _)
    | rejected => cases he
    | added => cases he
    | @swept now' u' o' c' =>
      cases he
      cases c with
      | @expire _ popped left m out swa =>
      cases c' with
      | @expire _ popped' left' n out' swb =>
      have swb : Swept (due s.cfg.reassemblerConfig now) t.reassembler.order t.reassembler.entries popped' left' n out' := by
        rw [← view.cfg]; exact swb
      obtain ⟨same, counts⟩ := swept_alike swa swb view.own fun key e hk he hd => by
        have agree := hides now rfl key e hk he hd
        rw [view.cfg] at agree
        exact agree
      refine ⟨⟨cfg, ?_, ?_, ?_, block fun x => ?_⟩, rfl⟩
      · rw [hu, hu']; exact same
      · rw [hu']
        intro key other
        show n.lookup key = Option.none
        rw [swb.lookup key, view.other key other, ite_self]
      · rw [hv, hv']; exact view.tracker
      · have told : ∀ l : List (Key × Entry), ((l.map fun r => expiredOf r.1 r.2).countP fun m => m.sourceId = k) =
            l.countP fun r => r.1.sourceId = k := fun l => List.countP_map
        simp only [ReceiverSourceStats.react, told, counts]
  | @added f now io _ o c =>
    generalize he : Event.datagram f.datagram now io = e at frontB
    cases frontB with
    | quiet datagram => exact absurd he.symm (datagram _ _ _)
    | rejected parse bad =>
      cases he
      rw [f.accepted] at parse
      cases parse
      exact absurd rfl bad
    | swept => cases he
    | @added g now' io' _ o' c' =>
      obtain rfl : f = g := Fragment.eq_of_datagram (by injection he)
      obtain rfl : now = now' := by injection he
      have own : f.hdr.sourceId = k := by simpa [concerns, sourceOf_fragment] using ours
      obtain ⟨rfl, entries⟩ := c.local room
      obtain ⟨answer, entries'⟩ := c'.local roomT
      rw [view.cfg, view.own f.key own] at answer entries'
      subst answer
      obtain ⟨seq, tracker⟩ := observeNew_local (a := t.sequences) (b := s.sequences) (h := f.hdr)
        (by rw [own]; exact view.tracker) (addAt s.cfg.reassemblerConfig (s.reassembler.entries.lookup f.key) f now).2.newMessage
      refine ⟨⟨cfg, ?_, ?_, ?_, block fun x => by rw [seq]⟩, ?_⟩
      · intro key hk
        rw [hu, hu', entries key, entries' key]
        split
        · rfl
        · exact view.own key hk
      · intro key other
        have ne : key ≠ f.key := fun eq => other (by rw [eq]; exact own)
        rw [hu', entries' key, if_neg ne]
        exact view.other key other
      · rw [hv, hv', ← own]; exact tracker
      · simp only [Reaction.message]
        split
        next complete =>
          have source : (addAt s.cfg.reassemblerConfig (s.reassembler.entries.lookup f.key) f now).2.out.sourceId = k :=
            ((c.out_ok complete).1).trans own
          simp [source]
        next => rfl

end Step

/-- In no state of the run, or of a part of it from its start, are `max_pending` entries pending. -/
def BelowBound (cfg : ReceiverConfig) (es : List Event) : Prop :=
  ∀ pre, pre <+: es → ∀ u us, run step (create cfg) pre = .ok (u, us) →
    u.reassembler.pending < cfg.reassemblerConfig.maxPending

/-- At every sweep of the run the queue hides the same overdue entries of source `k` with
and without the datagrams of the other sources. -/
def SweepsAlike (cfg : ReceiverConfig) (k : UInt32) (es : List Event) : Prop :=
  ∀ pre now, pre ++ [.sweep now] <+: es → ∀ u us v vs, run step (create cfg) pre = .ok (u, us) →
    run step (create cfg) (ofSource k pre) = .ok (v, vs) → HidesAlike k now u v

section Run

variable {cfg : ReceiverConfig} {k : UInt32}

theorem ofSource_snoc (k : UInt32) (es : List Event) (e : Event) :
    ofSource k (es ++ [e]) = if concerns k e then ofSource k es ++ [e] else ofSource k es := by
  unfold ofSource
  rw [List.filter_append]
  split
  next ours => rw [List.filter_cons_of_pos ours, List.filter_nil]
  next other => rw [List.filter_cons_of_neg other, List.filter_nil, List.append_nil]

theorem messagesOf_snoc (k : UInt32) (rs : List Reaction) (r : Reaction) :
    messagesOf k (rs ++ [r]) = messagesOf k rs ++ r.message.toList.filter fun m => m.sourceId = k := by
  unfold messagesOf messages
  rw [List.filterMap_append, List.filter_append]
  cases hm : r.message <;> simp [hm]

/-- The run of one source, beside the run of all. -/
theorem view_run (sound : cfg.Sound) {es : List Event} (below : BelowBound cfg es) (alike : SweepsAlike cfg k es)
    {s : Receiver} {rs : List Reaction} (ran : run step (create cfg) es = .ok (s, rs)) :
    ∃ t qs, run step (create cfg) (ofSource k es) = .ok (t, qs) ∧ View k s t ∧ messages qs = messagesOf k rs := by
  induction es using List.reverseRecOn generalizing s rs with
  | nil =>
    cases ran
    exact ⟨_, [], rfl, ⟨rfl, fun _ _ => rfl, fun _ _ => rfl, rfl, rfl⟩, rfl⟩
  | append_singleton es e ih =>
    obtain ⟨u, us, r, before, one, rfl⟩ := run_snoc.1 ran
    have front : es <+: es ++ [e] := List.prefix_append _ _
    obtain ⟨v, vs, beforeK, view, told⟩ := ih (fun pre h => below pre (h.trans front))
      (fun pre now h => alike pre now (h.trans front)) before
    have saneU := sane_of_trace sound (Trace.of_run before)
    have saneV := sane_of_trace sound (Trace.of_run beforeK)
    have room : u.reassembler.pending < u.cfg.reassemblerConfig.maxPending := by
      rw [saneU.ofCfg]; exact below es front u us before
    have a := stepped_of_step sound saneU one
    rw [ofSource_snoc, messagesOf_snoc]
    cases ours : concerns k e with
    | false =>
      rw [if_neg Bool.false_ne_true]
      obtain ⟨view', foreign⟩ := view.skip room a ours
      refine ⟨v, vs, beforeK, view', ?_⟩
      rw [told]
      cases hm : r.message with
      | none => simp
      | some m => simp [foreign m hm]
    | true =>
      rw [if_pos rfl]
      obtain ⟨t, q, oneK, b⟩ := step_cases (s := v) (by rw [saneV.ofCfg]; exact saneV.inv)
        (by rw [saneV.ofCfg]; exact sound.maxPending_pos) e
      have hides : ∀ now, e = .sweep now → HidesAlike k now u v := by
        rintro now rfl
        exact alike es now (List.prefix_refl _) u us v vs before beforeK
      obtain ⟨view', same⟩ := view.step room hides ours a b
      refine ⟨t, vs ++ [q], run_snoc.2 ⟨v, vs, q, beforeK, oneK, rfl⟩, view', ?_⟩
      rw [messages_snoc, told, same]

end Run

/-- Below the pending bound, and as long as the sweeps find the same overdue entries of a
source hidden with and without the datagrams of the others, the source gets the same
messages and the same statistics, `records_written` apart, at every point of the run. -/
theorem independent (cfg : ReceiverConfig) (sound : cfg.Sound) (k : UInt32) (es : List Event)
    (below : BelowBound cfg es) (alike : SweepsAlike cfg k es) :
    ∀ pre, pre <+: es → ∃ s rs t qs, run step (create cfg) pre = .ok (s, rs) ∧
      run step (create cfg) (ofSource k pre) = .ok (t, qs) ∧ messages qs = messagesOf k rs ∧
      t.reception k = s.reception k := by
  intro pre front
  obtain ⟨s, rs, ran, _⟩ := run_ok sound pre (sane_create cfg)
  obtain ⟨t, qs, ranK, view, told⟩ := view_run sound (fun p h => below p (h.trans front))
    (fun p now h => alike p now (h.trans front)) ran
  exact ⟨s, rs, t, qs, ran, ranK, told, view.block⟩

section Runs

theorem otherHalf_length : ([9] : Bytes).length = (1 : UInt16).toNat := rfl

/-- The first half of a two-byte message of source 2. -/
def otherHalf : Fragment :=
  .encode { flags := 1, sourceId := 2, messageLength := 2, fragmentCount := 2, fragmentLength := 1 }
    [9] rfl (by constructor <;> simp [kFlagFragmented]) otherHalf_length

/-- A run stays below the bound if its parts do so when evaluated. -/
theorem belowBound_of_eval {cfg : ReceiverConfig} {es : List Event}
    (h : ∀ pre ∈ es.inits, ((run step (create cfg) pre).toOption.map fun r =>
      decide (r.1.reassembler.pending < cfg.reassemblerConfig.maxPending)) = some true) : BelowBound cfg es := by
  intro pre front u us ran
  have eval := h pre ((List.mem_inits _ _).2 front)
  rw [ran] at eval
  simpa [Except.toOption] using eval

/-- Where all entries are overdue, none is hidden. -/
theorem not_hidden_of_due {r : Reassembler} (listed : Listed r.order r.entries) {old : Entry → Bool}
    (all : ∀ key ∈ r.order, (r.entries.lookup key).all old = true) (key : Key) :
    ¬ Hidden old r.order r.entries key := by
  rintro ⟨⟨e, here, -⟩, behind⟩
  obtain ⟨pre, post, split⟩ := List.append_of_mem (listed key e here)
  obtain ⟨j, mem, u, there, young⟩ := behind pre post split
  have due := all j (by rw [split]; exact List.mem_append_left _ mem)
  rw [there, Option.all_some, young] at due
  cases due

/-- A half of each source is overdue at a sweep; a message of source 1 completes behind it. -/
def sweptRun : List Event :=
  [arrives 0 false 0, .datagram otherHalf.datagram 1000000 {}, .sweep 600000000, arrives 1 false 601000000,
    arrives 1 true 602000000]

theorem sweptRun_alike : SweepsAlike {} 1 sweptRun := by
  rintro pre now ⟨rest, eq⟩ u us v vs ran ranK
  have here : sweptRun[pre.length]? = some (.sweep now) := by
    rw [← eq, List.append_assoc, List.getElem?_append_right (Nat.le_refl _), Nat.sub_self]
    rfl
  have front : pre = sweptRun.take pre.length := by
    rw [← eq, List.append_assoc, List.take_left]
  -- the one sweep is behind the two halves, which are overdue
  have place : pre.length = 2 ∧ now = 600000000 := by
    have lt : pre.length < 5 := (List.getElem?_eq_some_iff.1 here).1
    generalize pre.length = n at here lt
    interval_cases n
    · cases here
    · cases here
    · cases here
      exact ⟨rfl, rfl⟩
    · cases here
    · cases here
  obtain ⟨len, rfl⟩ := place
  rw [len] at front
  subst front
  have old : ((run step (create {}) (sweptRun.take 2)).toOption.all fun r => r.1.reassembler.order.all fun key =>
        (r.1.reassembler.entries.lookup key).all (due ({} : ReceiverConfig).reassemblerConfig 600000000)) = true ∧
      ((run step (create {}) (ofSource 1 (sweptRun.take 2))).toOption.all fun r => r.1.reassembler.order.all fun key =>
        (r.1.reassembler.entries.lookup key).all (due ({} : ReceiverConfig).reassemblerConfig 600000000)) = true := by
    decide +kernel
  obtain ⟨s, rs, ran', sane⟩ := run_ok ReceiverConfig.default_sound (sweptRun.take 2) (sane_create {})
  obtain ⟨t, qs, ranK', saneK⟩ := run_ok ReceiverConfig.default_sound (ofSource 1 (sweptRun.take 2)) (sane_create {})
  obtain ⟨rfl, -⟩ := Prod.mk.inj (Except.ok.inj (ran'.symm.trans ran))
  obtain ⟨rfl, -⟩ := Prod.mk.inj (Except.ok.inj (ranK'.symm.trans ranK))
  rw [ran', ranK'] at old
  intro key e _ _ _
  have whole := not_hidden_of_due sane.inv.listed (List.all_eq_true.1 old.1) key
  have own := not_hidden_of_due saneK.inv.listed (List.all_eq_true.1 old.2) key
  rw [sane.ofCfg, saneK.ofCfg]
  exact iff_of_false whole own

theorem independent_sweptRun : ∃ s rs t qs, run step (create {}) sweptRun = .ok (s, rs) ∧
    run step (create {}) (ofSource 1 sweptRun) = .ok (t, qs) ∧ messages qs = messagesOf 1 rs ∧
    t.reception 1 = s.reception 1 :=
  independent {} ReceiverConfig.default_sound 1 sweptRun (belowBound_of_eval (by decide +kernel)) sweptRun_alike _
    (List.prefix_refl _)

/-- Message 0 of source 1 completes and comes back while the queue lists its first copy in
front of a message of source 2. -/
def crossRun : List Event :=
  [arrives 0 false 0, .datagram otherHalf.datagram 1000000 {}, arrives 0 true 2000000, arrives 0 false 400000000,
    .sweep 501000000]

theorem crossRun_below : BelowBound {} crossRun := belowBound_of_eval (by decide +kernel)

/-- It is false without the condition on sweeps: source 1 keeps the message of source 2 pending. -/
theorem other_source_interferes :
    ¬ ∀ (cfg : ReceiverConfig) (k : UInt32) (es : List Event) (s t : Receiver) (rs qs : List Reaction), cfg.Sound →
      BelowBound cfg es → run step (create cfg) es = .ok (s, rs) →
      run step (create cfg) (ofSource k es) = .ok (t, qs) →
      messages qs = messagesOf k rs ∧ t.reception k = s.reception k := by
  intro always
  obtain ⟨s, rs, ran, _⟩ := run_ok ReceiverConfig.default_sound crossRun (sane_create {})
  obtain ⟨t, qs, ranK, _⟩ := run_ok ReceiverConfig.default_sound (ofSource 2 crossRun) (sane_create {})
  have same := congrArg ReceiverSourceStats.incomplete
    (always {} 2 crossRun s t rs qs ReceiverConfig.default_sound crossRun_below ran ranK).2
  have counts : ((run step (create {}) crossRun).toOption.map fun r => (r.1.reception 2).incomplete) = some 0 ∧
      ((run step (create {}) (ofSource 2 crossRun)).toOption.map fun r => (r.1.reception 2).incomplete) = some 1 := by
    decide +kernel
  rw [ran, ranK] at counts
  simp only [Except.toOption, Option.map_some, Option.some.injEq] at counts
  omega

end Runs

end Receiver

end IpcRelay
