import IpcRelay.Receiver.Expiry
import IpcRelay.Receiver.Hostile

/-!
# Where the opened reassemblies went

An entry that a fragment opens leaves the store by completion, by a fragment
that disagrees with it, by its timeout, or by eviction. The first three are
counted; `add` evicts with a null callback, and that is not. So the books are
even, for every source, exactly in the runs in which no fragment opens an entry
while `max_pending` entries are pending (`opened_accounted`).
-/

namespace IpcRelay.Receiver

open Wire Reassembler ExpiryQueue Capture Machine

/-- The reaction opened an entry of source `k`. -/
def opens (k : UInt32) : Reaction → Bool
  | .added h o _ => h.sourceId = k ∧ h.fragmentCount ≠ 1 ∧ o.newMessage
  | _ => false

/-- The reaction delivered a fragmented message of source `k`. -/
def delivers (k : UInt32) : Reaction → Bool
  | .added h o _ => h.sourceId = k ∧ h.fragmentCount ≠ 1 ∧ o.result = .complete
  | _ => false

/-- The reaction discarded an entry of source `k` as inconsistent; an oversize fragment has none. -/
def discards (cfg : ReceiverConfig) (k : UInt32) : Reaction → Bool
  | .added h o _ => h.sourceId = k ∧ o.result = .malformed ∧ h.messageLength ≤ cfg.reassemblyMaxMessageBytes
  | _ => false

/-- An entry of source `k` counts one. -/
def ownedBy (k : UInt32) (key : Key) (_ : Entry) : Nat := if key.sourceId = k then 1 else 0

/-- The pending entries of source `k`. -/
def pendingOf (s : Receiver) (k : UInt32) : Nat := KeyMap.total s.reassembler.entries (ownedBy k)

/-- The event brings the first fragment of a message while the store is full. -/
def Displaces (s : Receiver) (e : Event) : Prop :=
  ∃ f now io, e = .datagram (Fragment.datagram f) now io ∧ f.Several ∧
    f.hdr.messageLength.toNat ≤ s.cfg.reassemblerConfig.maxMessageLength ∧
    s.reassembler.entries.lookup f.key = none ∧ s.reassembler.pending = s.cfg.reassemblerConfig.maxPending

/-- Every opened entry of every source is delivered, discarded, incomplete or pending. -/
def Accounted (s : Receiver) (rs : List Reaction) : Prop :=
  ∀ k, rs.countP (opens k) = rs.countP (delivers k) + rs.countP (discards s.cfg k) +
    (s.stats.block k).incomplete + pendingOf s k

section Step

variable {s s' : Receiver} {e : Event} {r : Reaction} {k : UInt32}

/-- What the reaction adds to the incomplete counter of source `k`. -/
def expiredIn (k : UInt32) : Reaction → Nat
  | .swept o => o.notified.countP fun m => m.sourceId = k
  | _ => 0

theorem incomplete_react (b : ReceiverSourceStats) : (b.react k r).incomplete = b.incomplete + expiredIn k r := by
  cases r with
  | rejected err source => simp only [ReceiverSourceStats.react]; split <;> rfl
  | swept o => rfl
  | answered ok => rfl
  | added h o seq =>
    have sequenced : ∀ b : ReceiverSourceStats, (b.sequenced seq).incomplete = b.incomplete := by
      intro b; unfold ReceiverSourceStats.sequenced; split <;> rfl
    have settled : ∀ b : ReceiverSourceStats, (b.settled o).incomplete = b.incomplete := by
      intro b; unfold ReceiverSourceStats.settled; split <;> rfl
    simp only [ReceiverSourceStats.react]
    split
    · rw [settled, sequenced]; rfl
    · rfl

/-- One turn of the books: `lost` are the entries that were evicted. -/
structure Turn (s : Receiver) (e : Event) (s' : Receiver) (r : Reaction) (lost : UInt32 → Nat) : Prop where
  even : ∀ k, (opens k r).toNat + pendingOf s k =
    (delivers k r).toNat + (discards s.cfg k r).toNat + expiredIn k r + pendingOf s' k + lost k
  none_iff : (∀ k, lost k = 0) ↔ ¬ Displaces s e

theorem not_displaces_of_lookup {f : Fragment} {now : UInt64} {io : Stdio} {d : Entry}
    (old : s.reassembler.entries.lookup f.key = some d) : ¬ Displaces s (.datagram f.datagram now io) := by
  rintro ⟨g, _, _, eq, _, _, new, _⟩
  obtain rfl : f = g := Fragment.eq_of_datagram (by injection eq)
  rw [old] at new
  cases new

theorem turn_of_front {u : Reassembler} {t : SequenceTracker} (front : Step s e u t r) (moved : s'.reassembler = u) :
    ∃ lost, Turn s e s' r lost := by
  have quiet : pendingOf s' = pendingOf s → (∀ k, opens k r = false) → (∀ k, delivers k r = false) →
      (∀ k, discards s.cfg k r = false) → (∀ k, expiredIn k r = 0) → ¬ Displaces s e → ∃ lost, Turn s e s' r lost := by
    intro same opens delivers discards expired no
    refine ⟨fun _ => 0, fun k => ?_, by simp [no]⟩
    simp [same, opens, delivers, discards, expired]
  have at_ : ∀ k, pendingOf s' k = KeyMap.total u.entries (ownedBy k) := by
    intro k; unfold pendingOf; rw [moved]
  cases front with
  | quiet datagram =>
    refine quiet (funext at_) ?_ ?_ ?_ ?_ ?_ <;> try (intro k; rfl)
    rintro ⟨f, now, io, eq, _⟩
    exact datagram _ _ _ eq
  | @rejected data now io p parse bad =>
    refine quiet (funext at_) ?_ ?_ ?_ ?_ ?_ <;> try (intro k; rfl)
    rintro ⟨f, now, io, eq, _⟩
    injection eq with data
    rw [data, f.accepted] at parse
    cases parse
    exact bad rfl
  | swept c =>
    cases c with
    | @expire _ popped q m out sw =>
    refine ⟨fun _ => 0, fun k => ?_, ?_⟩
    · have weight := sw.weight (ownedBy k)
      have told : expiredIn k (.swept ⟨out.length, out.map fun r => expiredOf r.1 r.2⟩) =
          (out.map fun r => ownedBy k r.1 r.2).sum := by
        show List.countP (fun m : ExpiredMessage => decide (m.sourceId = k)) (out.map _) = _
        rw [KeyMap.countP_eq_sum, List.map_map]
        rfl
      rw [at_ k, told]
      simp only [opens, delivers, discards, Bool.toNat_false, Nat.zero_add, Nat.add_zero]
      unfold pendingOf
      rw [weight, Nat.add_comm]
    · simp only [implies_true, true_iff]
      rintro ⟨f, now, io, eq, _⟩
      cases eq
  | @added f now io _ o c =>
    have short : f.hdr.messageLength.toNat ≤ s.cfg.reassemblerConfig.maxMessageLength →
        f.hdr.messageLength ≤ s.cfg.reassemblyMaxMessageBytes := UInt32.le_iff_toNat_le.2
    cases c with
    | whole single =>
      have one : f.hdr.fragmentCount = 1 := not_not.1 single
      refine quiet (funext at_) ?_ ?_ ?_ (fun k => rfl) ?_
      · intro k; simp [opens, one]
      · intro k; simp [delivers, one]
      · intro k; simp [discards]
      · rintro ⟨g, _, _, eq, several, _⟩
        obtain rfl : f = g := Fragment.eq_of_datagram (by injection eq)
        exact single several
    | oversize several big =>
      have long : ¬ f.hdr.messageLength ≤ s.cfg.reassemblyMaxMessageBytes := fun le =>
        absurd (UInt32.le_iff_toNat_le.1 le) (Nat.not_le_of_lt big)
      refine quiet (funext at_) ?_ ?_ ?_ (fun k => rfl) ?_
      · intro k; simp [opens]
      · intro k; simp [delivers]
      · intro k; simp [discards, long]
      · rintro ⟨g, _, _, eq, _, fits, _⟩
        obtain rfl : f = g := Fragment.eq_of_datagram (by injection eq)
        exact absurd fits (Nat.not_le_of_lt big)
    | duplicate several fits old =>
      refine quiet (funext at_) ?_ ?_ ?_ (fun k => rfl) (not_displaces_of_lookup old)
      · intro k; simp [opens]
      · intro k; simp [delivers]
      · intro k; simp [discards]
    | @stored d several fits old =>
      refine quiet (funext fun k => ?_) ?_ ?_ ?_ (fun k => rfl) (not_displaces_of_lookup old)
      · have share := KeyMap.total_insert_old (v := d.store f) (ownedBy k) old
        rw [at_ k]
        exact Nat.add_right_cancel share
      · intro k; simp [opens]
      · intro k; simp [delivers]
      · intro k; simp [discards]
    | opened several fits new room =>
      refine ⟨fun _ => 0, fun k => ?_, ?_⟩
      · have share := KeyMap.total_insert_new (v := (openEntry f.hdr now).store f) (ownedBy k) new
        rw [at_ k, share]
        have count : f.hdr.fragmentCount ≠ 1 := several
        by_cases own : f.hdr.sourceId = k <;>
          simp [opens, delivers, discards, expiredIn, ownedBy, own, count, keyOf, pendingOf]
      · simp only [implies_true, true_iff]
        rintro ⟨_, _, _, _, _, _, _, full⟩
        exact absurd full (Nat.ne_of_lt room)
    | @displaced key d rest several fits new full victim =>
      obtain ⟨_, _, _, hd⟩ := popFirst_some victim
      refine ⟨fun k => if key.sourceId = k then 1 else 0, fun k => ?_, ?_⟩
      · have gone : (s.reassembler.entries.erase key).lookup f.key = none := by
          rw [KeyMap.lookup_erase_eq, new, ite_self]
        have left := KeyMap.total_erase (ownedBy k) hd
        have share := KeyMap.total_insert_new (v := (openEntry f.hdr now).store f) (ownedBy k) gone
        rw [at_ k, share]
        have count : f.hdr.fragmentCount ≠ 1 := several
        unfold pendingOf
        rw [left]
        by_cases own : f.hdr.sourceId = k <;>
          simp [opens, delivers, discards, expiredIn, ownedBy, own, count, keyOf] <;> omega
      · constructor
        · intro clear
          have := clear key.sourceId
          simp at this
        · intro no
          exact absurd ⟨f, now, io, rfl, several, fits, new, full⟩ no
    | inconsistent several fits old =>
      refine ⟨fun _ => 0, fun k => ?_, by simp [not_displaces_of_lookup old]⟩
      have left := KeyMap.total_erase (ownedBy k) old
      rw [at_ k]
      unfold pendingOf
      rw [left]
      by_cases own : f.hdr.sourceId = k <;>
        simp [opens, delivers, discards, expiredIn, ownedBy, own, short fits, keyOf]
    | completed several fits old =>
      refine ⟨fun _ => 0, fun k => ?_, by simp [not_displaces_of_lookup old]⟩
      have left := KeyMap.total_erase (ownedBy k) old
      rw [at_ k]
      unfold pendingOf
      rw [left]
      have count : f.hdr.fragmentCount ≠ 1 := several
      by_cases own : f.hdr.sourceId = k <;>
        simp [opens, delivers, discards, expiredIn, ownedBy, own, count, keyOf]

end Step

/-- The books of a run, with what was evicted from each source. -/
theorem ledger {cfg : ReceiverConfig} (sound : cfg.Sound) {es : List Event} {s : Receiver} {rs : List Reaction}
    (ran : run step (create cfg) es = .ok (s, rs)) :
    ∃ lost : UInt32 → Nat,
      (∀ k, rs.countP (opens k) = rs.countP (delivers k) + rs.countP (discards cfg k) +
        (s.stats.block k).incomplete + pendingOf s k + lost k) ∧
      ((∀ k, lost k = 0) ↔ Throughout step (create cfg) (fun u e => ¬ Displaces u e) es) := by
  induction es using List.reverseRecOn generalizing s rs with
  | nil =>
    cases ran
    exact ⟨fun _ => 0, fun k => rfl, by simp [throughout_nil]⟩
  | append_singleton es e ih =>
    obtain ⟨u, us, r, before, hs, rfl⟩ := run_snoc.1 ran
    obtain ⟨lost, even, none_iff⟩ := ih before
    have sane := sane_of_trace sound (Trace.of_run before)
    have stepped := stepped_of_step sound sane hs
    obtain ⟨more, turn⟩ := turn_of_front stepped.front rfl
    refine ⟨fun k => lost k + more k, ?_, ?_⟩
    · intro k
      have told : (s.stats.block k).incomplete = (u.stats.block k).incomplete + expiredIn k r :=
        (congrArg ReceiverSourceStats.incomplete (stepped.blocks k)).trans (incomplete_react _)
      have now := turn.even k
      have past := even k
      rw [sane.ofCfg] at now
      simp only [List.countP_append, List.countP_singleton]
      have bit : ∀ b : Bool, (if b = true then 1 else 0) = b.toNat := fun b => by cases b <;> rfl
      simp only [bit]
      omega
    · rw [throughout_snoc before, ← none_iff, ← turn.none_iff]
      simp only [Nat.add_eq_zero_iff, forall_and]

/-- The global incomplete counter is the sum over the sources in every run. Every opened
reassembly of every source is accounted for exactly when no step of the run opens one
while `max_pending` are pending. -/
theorem opened_accounted (cfg : ReceiverConfig) (sound : cfg.Sound) (es : List Event) :
    ∃ s rs, run step (create cfg) es = .ok (s, rs) ∧
      s.stats.incomplete = KeyMap.total s.stats.sources (fun _ b => b.incomplete) ∧
      (Accounted s rs ↔ Throughout step (create cfg) (fun u e => ¬ Displaces u e) es) := by
  obtain ⟨s, rs, ran, sane⟩ := run_ok sound es (sane_create cfg)
  obtain ⟨lost, even, none_iff⟩ := ledger sound ran
  refine ⟨s, rs, ran, sane.balanced.symm, ?_⟩
  rw [← none_iff, Accounted, sane.ofCfg]
  apply forall_congr'
  intro k
  have books := even k
  omega

section Runs

/-- Half of a two-byte message of source 1 arrives. -/
def arrives (sequence : UInt64) (second : Bool) (now : UInt64) : Event := .datagram (half sequence second).datagram now {}

theorem siteCfg_sound : siteCfg.Sound := ReceiverConfig.build_sound siteEnv siteFile

/-- A message that is delivered, and half of another one that times out. -/
def roomyRun : List Event := [arrives 0 false 0, arrives 1 false 1, arrives 0 true 2, .sweep 600000000]

theorem roomyRun_displaces : Throughout step (create {}) (fun u e => ¬ Displaces u e) roomyRun := by
  rintro i e u us here ran ⟨f, now, io, -, -, -, -, full⟩
  have lt : i < 4 := (List.getElem?_eq_some_iff.1 here).1
  -- two entries at most are pending before each of the events, and there is room for 256
  have pending : ∀ i < 4, ((run step (create {}) (roomyRun.take i)).toOption.all fun r =>
      decide (r.1.reassembler.pending < r.1.cfg.reassemblerConfig.maxPending)) = true := by decide +kernel
  have room := pending i lt
  rw [ran] at room
  exact absurd full (Nat.ne_of_lt (of_decide_eq_true room))

/-- With room for one entry, the second message takes it from the first. -/
def fullRun : List Event := [arrives 0 false 0, arrives 1 false 0]

theorem opened_accounted_runs :
    (∃ s rs, run step (create {}) roomyRun = .ok (s, rs) ∧ Accounted s rs) ∧
    ∃ s rs, run step (create siteCfg) fullRun = .ok (s, rs) ∧ ¬ Accounted s rs ∧
      ¬ Throughout step (create siteCfg) (fun u e => ¬ Displaces u e) fullRun := by
  obtain ⟨s, rs, ran, -, iff⟩ := opened_accounted {} ReceiverConfig.default_sound roomyRun
  obtain ⟨t, qs, ran', -, iff'⟩ := opened_accounted siteCfg siteCfg_sound fullRun
  have counts : ((run step (create siteCfg) fullRun).toOption.map
      fun r => (r.2.countP (opens 1), r.2.countP (delivers 1), r.2.countP (discards r.1.cfg 1),
        (r.1.stats.block 1).incomplete, pendingOf r.1 1)) = some (2, 0, 0, 0, 1) := by decide +kernel
  have uneven : ¬ Accounted t qs := by
    intro even
    have books := even 1
    rw [ran'] at counts
    simp only [Except.toOption, Option.map_some, Option.some.injEq, Prod.mk.injEq] at counts
    omega
  exact ⟨⟨s, rs, ran, iff.2 roomyRun_displaces⟩, t, qs, ran', uneven, mt iff'.2 uneven⟩

/-- The second message evicts the first, which no counter tells. -/
theorem evicted_unaccounted :
    ¬ ∀ (cfg : ReceiverConfig) (es : List Event) (s : Receiver) (rs : List Reaction), cfg.Sound →
      run step (create cfg) es = .ok (s, rs) → Accounted s rs := by
  intro always
  obtain ⟨s, rs, ran, _⟩ := run_ok siteCfg_sound fullRun (sane_create siteCfg)
  have even := always siteCfg _ s rs siteCfg_sound ran 1
  have counts : ((run step (create siteCfg) fullRun).toOption.map
      fun r => (r.2.countP (opens 1), r.2.countP (delivers 1), r.2.countP (discards r.1.cfg 1),
        (r.1.stats.block 1).incomplete, pendingOf r.1 1)) = some (2, 0, 0, 0, 1) := by decide +kernel
  rw [ran] at counts
  simp only [Except.toOption, Option.map_some, Option.some.injEq, Prod.mk.injEq] at counts
  omega

end Runs

end IpcRelay.Receiver
