import IpcRelay.Receiver.Accounting
import IpcRelay.Receiver.Alike

/-!
# Repeated fragments

A copy of a fragment that arrives while its message is still pending, or that
is oversize anyway, changes counters and nothing else (`copy_alike`), so a run
with such copies put in completes the same messages and ends in the same state
up to the counters (`duplicates_ignored`). A copy that arrives when the message
has left the store opens a new entry instead (`late_copy_counted`).
-/

namespace IpcRelay.Receiver

open Wire Reassembler ExpiryQueue Capture Machine

/-- The fragment is one of those that the entry is made of. -/
def Took (f : Fragment) (d : Entry) : Prop :=
  Consistent f d ∧ d.received[f.hdr.fragmentIndex.toNat]? = some true

/-- The message of the fragment is pending. -/
def Pends (s : Receiver) (f : Fragment) : Prop := s.reassembler.entries.lookup f.key ≠ none

/-- The message of `f` is longer than the receiver takes. -/
def Oversize (cfg : ReceiverConfig) (f : Fragment) : Prop :=
  cfg.reassemblyMaxMessageBytes.toNat < f.hdr.messageLength.toNat

/-- `es'` is `es` with one more copy of a fragment of a message of several, at a place up to which
the message stayed pending from the fragment on, or anywhere if it is oversize. -/
def Repeats (cfg : ReceiverConfig) (es es' : List Event) : Prop :=
  ∃ (f : Fragment) (pre mid post : List Event) (now now' : UInt64) (io io' : Stdio),
    es = pre ++ .datagram f.datagram now io :: (mid ++ post) ∧
    es' = pre ++ .datagram f.datagram now io :: (mid ++ .datagram f.datagram now' io' :: post) ∧
    f.Several ∧
    (Oversize cfg f ∨ ∀ m, m <+: mid → ∀ u us,
      run step (create cfg) (pre ++ .datagram f.datagram now io :: m) = .ok (u, us) → Pends u f)

section Step

variable {s s' : Receiver} {f : Fragment} {e : Event} {r : Reaction}

theorem took_store {d : Entry} {g : Fragment} (ok : d.Ok) (same : Consistent g d) :
    Took g (d.store g) := by
  have lt := index_lt ok same
  refine ⟨same, ?_⟩
  simp [Entry.store, lt]

/-- Taking in another fragment keeps those that are there. -/
theorem Took.store {d : Entry} (took : Took f d) (g : Fragment) : Took f (d.store g) := by
  refine ⟨took.1, ?_⟩
  have held := took.2
  simp only [Entry.store, List.getElem?_set]
  split
  · have lt := (List.getElem?_eq_some_iff.1 held).1
    split
    · rfl
    · omega
  · exact held

/-- A fragment after which its message is pending has been taken in. -/
theorem took_of_added {now : UInt64} {o : AddOutcome} {u : Reassembler} {d : Entry}
    (inv : Inv s.cfg.reassemblerConfig s.reassembler)
    (c : AddCase s.cfg.reassemblerConfig s.reassembler f now u o) (several : f.Several) (fits : ¬ Oversize s.cfg f)
    (pending : u.entries.lookup f.key = some d) : Took f d := by
  have erased : (s.reassembler.entries.erase f.key).lookup f.key = none := by
    rw [KeyMap.lookup_erase_eq, if_pos rfl]
  cases c with
  | whole single => exact absurd several single
  | oversize several big => exact absurd big fits
  | opened several =>
    rw [KeyMap.lookup_insert_eq, if_pos rfl] at pending
    cases pending
    exact took_store (openEntry_ok f now several) (consistent_openEntry f now)
  | displaced several =>
    rw [KeyMap.lookup_insert_eq, if_pos rfl] at pending
    cases pending
    exact took_store (openEntry_ok f now several) (consistent_openEntry f now)
  | inconsistent => rw [erased] at pending; cases pending
  | duplicate several fits old same held =>
    rw [old] at pending
    cases pending
    exact ⟨same, held⟩
  | stored several fits old same fresh =>
    rw [KeyMap.lookup_insert_eq, if_pos rfl] at pending
    cases pending
    exact took_store (inv.entryOk _ _ old) same
  | completed => rw [erased] at pending; cases pending

theorem took_of_front_arrival {now : UInt64} {io : Stdio} {u : Reassembler} {t : SequenceTracker} {d : Entry}
    (inv : Inv s.cfg.reassemblerConfig s.reassembler) (front : Step s (.datagram f.datagram now io) u t r)
    (several : f.Several) (fits : ¬ Oversize s.cfg f) (pending : u.entries.lookup f.key = some d) : Took f d := by
  generalize arrival : (Event.datagram f.datagram now io) = e at front
  cases front with
  | rejected parse bad =>
    cases arrival
    rw [f.accepted] at parse
    cases parse
    exact absurd rfl bad
  | quiet datagram => exact absurd arrival.symm (datagram _ _ _)
  | swept => cases arrival
  | @added g _ _ _ _ c =>
    obtain rfl : f = g := Fragment.eq_of_datagram (by injection arrival)
    exact took_of_added inv c several fits pending

/-- An entry that stays pending keeps what it took in. -/
theorem took_of_front {u : Reassembler} {t : SequenceTracker} {d d' : Entry} (front : Step s e u t r)
    (old : s.reassembler.entries.lookup f.key = some d) (took : Took f d) (pending : u.entries.lookup f.key = some d') :
    Took f d' := by
  have kept : u.entries.lookup f.key = s.reassembler.entries.lookup f.key → Took f d' := by
    intro same
    rw [same, old] at pending
    cases pending
    exact took
  cases front with
  | rejected => exact kept rfl
  | quiet => exact kept rfl
  | swept c =>
    cases c with
    | expire sw => exact kept (pending.trans (sw.lookup_some pending).2.symm)
  | @added g now _ _ o c =>
    cases c with
    | whole => exact kept rfl
    | oversize => exact kept rfl
    | duplicate => exact kept rfl
    | inconsistent => exact kept (pending.trans (lookup_of_erase pending).symm)
    | completed => exact kept (pending.trans (lookup_of_erase pending).symm)
    | @stored b several fits there =>
      rw [KeyMap.lookup_insert_eq] at pending
      split at pending
      next eq =>
        rw [← eq, old] at there
        cases there
        cases pending
        exact took.store g
      next => exact kept (by rw [KeyMap.lookup_insert_eq, if_neg ‹_›])
    | opened several fits new =>
      have ne : f.key ≠ g.key := fun eq => by rw [eq, new] at old; cases old
      exact kept (by rw [KeyMap.lookup_insert_eq, if_neg ne])
    | displaced several fits new =>
      have ne : f.key ≠ g.key := fun eq => by rw [eq, new] at old; cases old
      rw [KeyMap.lookup_insert_eq, if_neg ne] at pending
      exact kept (by rw [KeyMap.lookup_insert_eq, if_neg ne]; exact pending.trans (lookup_of_erase pending).symm)

/-- A copy of a fragment that its entry has taken in, or that is oversize: only counters move. -/
theorem copy_alike (inv : Inv s.cfg.reassemblerConfig s.reassembler) (pos : 0 < s.cfg.reassemblerConfig.maxPending)
    (several : f.Several)
    (known : Oversize s.cfg f ∨ ∃ d, s.reassembler.entries.lookup f.key = some d ∧ Took f d)
    (now : UInt64) (io : Stdio) :
    ∃ s' r, step s (.datagram f.datagram now io) = .ok (s', r) ∧ r.message = none ∧ Alike s s' := by
  obtain ⟨u, o, added, c⟩ := add_cases inv pos f now
  have arrived := alike_countDatagram s f.hdr.sourceId f.datagram.length
  have copied : ∀ d, s.reassembler.entries.lookup f.key = some d → ¬ Oversize s.cfg f → Took f d := by
    intro d hd fits
    obtain big | ⟨d', hd', took⟩ := known
    · exact absurd big fits
    · rw [hd] at hd'; cases hd'; exact took
  have fresh : s.reassembler.entries.lookup f.key = none → ¬ Oversize s.cfg f → False := by
    intro new fits
    obtain big | ⟨d, hd, _⟩ := known
    · exact fits big
    · rw [new] at hd; cases hd
  cases c with
  | whole single => exact absurd several single
  | oversize several big =>
    exact ⟨_, _, handleDatagram_accepted s f now io added rfl rfl, rfl,
      arrived.trans (alike_noteMalformed _ _ _)⟩
  | duplicate several fits old =>
    exact ⟨_, _, handleDatagram_accepted s f now io added rfl rfl, rfl,
      arrived.trans (alike_countDuplicate _ _)⟩
  | opened several fits new => exact absurd fits fun le => fresh new (Nat.not_lt_of_le le)
  | displaced several fits new => exact absurd fits fun le => fresh new (Nat.not_lt_of_le le)
  | inconsistent several fits old mismatch => exact absurd (copied _ old (Nat.not_lt_of_le fits)).1 mismatch
  | stored several fits old same new =>
    have held := (copied _ old (Nat.not_lt_of_le fits)).2
    rw [new] at held
    cases held
  | completed several fits old same new =>
    have held := (copied _ old (Nat.not_lt_of_le fits)).2
    rw [new] at held
    cases held

end Step

section Run

variable {cfg : ReceiverConfig} {s t : Receiver} {f : Fragment}

/-- A message that stays pending over a run keeps the fragment that it took in. -/
theorem took_run (sound : cfg.Sound) (sane : Sane cfg s) {mid : List Event} {d : Entry}
    (old : s.reassembler.entries.lookup f.key = some d) (took : Took f d)
    (stays : ∀ m, m <+: mid → ∀ u us, run step s m = .ok (u, us) → Pends u f) {rs : List Reaction}
    (ran : run step s mid = .ok (t, rs)) : ∃ d, t.reassembler.entries.lookup f.key = some d ∧ Took f d := by
  induction mid generalizing s rs d with
  | nil => cases ran; exact ⟨d, old, took⟩
  | cons e mid ih =>
    obtain ⟨u, r, rest, one, after, rfl⟩ := run_cons.1 ran
    have stepped := stepped_of_step sound sane one
    have single : run step s [e] = .ok (u, [r]) := run_cons.2 ⟨u, r, [], one, rfl, rfl⟩
    obtain ⟨d', hd'⟩ := Option.ne_none_iff_exists'.1 (stays [e] ⟨mid, rfl⟩ u [r] single)
    refine ih (stepped.sane sane) hd' (took_of_front stepped.front old took hd') ?_ after
    rintro m ⟨tail, eq⟩ v vs hv
    refine stays (e :: m) ⟨tail, by rw [List.cons_append, eq]⟩ v (r :: vs) ?_
    exact run_cons.2 ⟨u, r, vs, one, hv, rfl⟩

/-- One copy more: the same messages, and a state that is alike. -/
theorem repeat_alike (sound : cfg.Sound) {es es' : List Event} (again : Repeats cfg es es') {s : Receiver}
    {rs : List Reaction} (ran : run step (create cfg) es = .ok (s, rs)) :
    ∃ s' rs', run step (create cfg) es' = .ok (s', rs') ∧ messages rs' = messages rs ∧ Alike s s' := by
  obtain ⟨f, pre, mid, post, now, now', io, io', rfl, rfl, several, known⟩ := again
  obtain ⟨u₀, rs₀, rest₀, before, from₀, rfl⟩ := run_append.1 ran
  obtain ⟨u₁, r₁, rest₁, first, from₁, rfl⟩ := run_cons.1 from₀
  obtain ⟨u₂, rs₂, rest₂, between, after, rfl⟩ := run_append.1 from₁
  have sane₀ := sane_of_trace sound (Trace.of_run before)
  have stepped := stepped_of_step sound sane₀ first
  have sane₁ := stepped.sane sane₀
  have sane₂ : Sane cfg u₂ := by
    obtain ⟨v, vs, hv, sane⟩ := run_ok sound mid sane₁
    rw [between] at hv
    cases hv
    exact sane
  have copy : Oversize u₂.cfg f ∨ ∃ d, u₂.reassembler.entries.lookup f.key = some d ∧ Took f d := by
    rw [sane₂.ofCfg]
    refine or_iff_not_imp_left.2 fun fits => ?_
    have stays := known.resolve_left fits
    have pends : ∀ m, m <+: mid → ∀ u us, run step u₁ m = .ok (u, us) → Pends u f := by
      intro m hm u us hu
      exact stays m hm u (rs₀ ++ r₁ :: us)
        (run_append.2 ⟨u₀, rs₀, r₁ :: us, before, run_cons.2 ⟨u₁, r₁, us, first, hu, rfl⟩, rfl⟩)
    obtain ⟨d, hd⟩ := Option.ne_none_iff_exists'.1 (pends [] (List.nil_prefix) u₁ [] rfl)
    have took : Took f d := by
      rw [← sane₀.ofCfg] at fits
      exact took_of_front_arrival (by rw [sane₀.ofCfg]; exact sane₀.inv) stepped.front several fits hd
    exact took_run sound sane₁ hd took pends between
  obtain ⟨u₃, r₃, again, silent, alike⟩ :=
    copy_alike (by rw [sane₂.ofCfg]; exact sane₂.inv) (by rw [sane₂.ofCfg]; exact sound.maxPending_pos) several copy
      now' io'
  obtain ⟨s', ended, alike'⟩ := alike_run alike after
  refine ⟨s', rs₀ ++ r₁ :: (rs₂ ++ r₃ :: rest₂), ?_, ?_, alike'⟩
  · refine run_append.2 ⟨u₀, rs₀, _, before, ?_, rfl⟩
    refine run_cons.2 ⟨u₁, r₁, _, first, ?_, rfl⟩
    refine run_append.2 ⟨u₂, rs₂, _, between, ?_, rfl⟩
    exact run_cons.2 ⟨u₃, r₃, rest₂, again, ended, rfl⟩
  · simp [messages, List.filterMap_append, List.filterMap_cons, silent]

end Run

/-- Copies of fragments that arrive while their message is pending, or that are oversize,
complete no message and change nothing but the packet, byte, duplicate and malformed
counters, which may only grow. -/
theorem duplicates_ignored (cfg : ReceiverConfig) (sound : cfg.Sound) (es es' : List Event)
    (again : Relation.ReflTransGen (Repeats cfg) es es') :
    ∃ s rs s' rs', run step (create cfg) es = .ok (s, rs) ∧ run step (create cfg) es' = .ok (s', rs') ∧
      messages rs' = messages rs ∧ Alike s s' := by
  obtain ⟨s, rs, ran, _⟩ := run_ok sound es (sane_create cfg)
  induction again with
  | refl => exact ⟨s, rs, s, rs, ran, ran, rfl, .refl s⟩
  | tail _ last ih =>
    obtain ⟨s₁, rs₁, s₂, rs₂, ran₁, ran₂, same, alike⟩ := ih
    obtain ⟨s', rs', ran', same', alike'⟩ := repeat_alike sound last ran₂
    exact ⟨s₁, rs₁, s', rs', ran₁, ran', same'.trans same, alike.trans alike'⟩

section Runs

theorem arrival_repeats : Repeats siteCfg [arrives 0 false 0] [arrives 0 false 0, arrives 0 false 1] := by
  refine ⟨half 0 false, [], [], [], 0, 1, {}, {}, rfl, rfl, by decide +kernel, .inr ?_⟩
  intro m hm u us ran
  obtain rfl := List.prefix_nil.1 hm
  have pending : ((run step (create siteCfg) [arrives 0 false 0]).toOption.map fun r =>
      (r.1.reassembler.entries.lookup (half 0 false).key).isSome) = some true := by decide +kernel
  have ran : run step (create siteCfg) [arrives 0 false 0] = .ok (u, us) := ran
  rw [ran] at pending
  exact Option.isSome_iff_ne_none.1 (Option.some.inj pending)

theorem duplicates_ignored_site : ∃ s rs s' rs',
    run step (create siteCfg) [arrives 0 false 0] = .ok (s, rs) ∧
      run step (create siteCfg) [arrives 0 false 0, arrives 0 false 1] = .ok (s', rs') ∧
      messages rs' = messages rs ∧ Alike s s' :=
  duplicates_ignored siteCfg siteCfg_sound _ _ (.single arrival_repeats)

/-- It is false of copies at any later place: one that arrives when its message is complete
counts as out of order. -/
theorem late_copy_counted :
    ¬ ∀ (cfg : ReceiverConfig) (f : Fragment) (pre mid post : List Event) (now now' : UInt64) (io io' : Stdio)
      (s s' : Receiver) (rs rs' : List Reaction), cfg.Sound → f.Several →
      run step (create cfg) (pre ++ .datagram f.datagram now io :: (mid ++ post)) = .ok (s, rs) →
      run step (create cfg) (pre ++ .datagram f.datagram now io :: (mid ++ .datagram f.datagram now' io' :: post)) =
        .ok (s', rs') →
      messages rs' = messages rs ∧ ∀ k, (s'.stats.block k).messages = (s.stats.block k).messages ∧
        (s'.stats.block k).gapEvents = (s.stats.block k).gapEvents ∧
        (s'.stats.block k).missing = (s.stats.block k).missing ∧
        (s'.stats.block k).outOfOrder = (s.stats.block k).outOfOrder ∧
        (s'.stats.block k).incomplete = (s.stats.block k).incomplete := by
  intro always
  obtain ⟨s, rs, ran, _⟩ := run_ok siteCfg_sound [arrives 0 false 0, arrives 0 true 1] (sane_create siteCfg)
  obtain ⟨s', rs', ran', _⟩ :=
    run_ok siteCfg_sound [arrives 0 false 0, arrives 0 true 1, arrives 0 false 2] (sane_create siteCfg)
  have same := (always siteCfg (half 0 false) [] [arrives 0 true 1] [] 0 2 {} {} s s' rs rs' siteCfg_sound
    (by decide +kernel) ran ran').2 1
  have counts : ((run step (create siteCfg) [arrives 0 false 0, arrives 0 true 1]).toOption.map fun r =>
      (r.1.stats.block 1).outOfOrder) = some 0 ∧
      ((run step (create siteCfg) [arrives 0 false 0, arrives 0 true 1, arrives 0 false 2]).toOption.map fun r =>
      (r.1.stats.block 1).outOfOrder) = some 1 := by decide +kernel
  rw [ran, ran'] at counts
  simp only [Except.toOption, Option.map_some, Option.some.injEq] at counts
  have := same.2.2.2.1
  omega

end Runs

end IpcRelay.Receiver
