import IpcRelay.Receiver.Expiry

/-!
# What bounds the store

The reassembler is to hold at most `max_pending` entries of at most
`max_message_length` bytes, to give up the oldest one when it is full, and to
keep `order_` from growing. The bound on the entries holds in every run, and the
eviction loop ends (`memory_bounded`). The other two rest on no key being listed
twice: `order_` keeps the place of an entry that was completed or discarded, and
a key that comes back is found there too early (`evicts_oldest`) and survives
the compaction as often as it is listed (`order_bounded`).
-/

namespace IpcRelay.Reassembler

open Wire ExpiryQueue Machine

section Memory

variable {cfg : Config} {s t : Reassembler}

/-- More turns than are needed change nothing. -/
theorem makeRoomWithin_mono {n : Nat} (h : makeRoomWithin cfg n s = .ok t) :
    ∀ m ≥ n, makeRoomWithin cfg m s = .ok t := by
  induction n generalizing s with
  | zero =>
    intro m _
    unfold makeRoomWithin at h
    split at h
    next room => cases h; exact makeRoomWithin_of_lt m room
    next => cases h
  | succ n ih =>
    intro m le
    obtain ⟨m, rfl⟩ : ∃ k, m = k + 1 := ⟨m - 1, by omega⟩
    unfold makeRoomWithin at h ⊢
    split at h
    next room => rw [if_pos room]; exact h
    next full => rw [if_neg full]; exact ih h m (by omega)

/-- The receiver's memory in a state. -/
structure Bounded (cfg : Config) (s : Reassembler) : Prop where
  /-- The eviction loop ends, however many turns it may take, with room for an entry. -/
  ends : ∃ t, (∀ n ≥ s.order.length, makeRoomWithin cfg n s = .ok t) ∧ t.pending < cfg.maxPending
  listed : ∀ k e, s.entries.lookup k = some e → k ∈ s.order
  pending : s.pending ≤ cfg.maxPending
  short : ∀ k e, s.entries.lookup k = some e → e.buffer.length ≤ cfg.maxMessageLength
  payload : KeyMap.total s.entries (fun _ e => e.buffer.length) ≤ cfg.maxPending * cfg.maxMessageLength

theorem Inv.ends (inv : Inv cfg s) (pos : 0 < cfg.maxPending) :
    ∃ t, makeRoom cfg s = .ok t ∧ t.pending < cfg.maxPending := by
  rcases Nat.lt_or_eq_of_le inv.bounded with room | full
  · exact ⟨s, makeRoom_of_lt room, room⟩
  · obtain ⟨k, d, rest, first, made⟩ := makeRoom_of_full inv pos full
    obtain ⟨_, _, _, hd⟩ := popFirst_some first
    have size := KeyMap.size_erase hd
    refine ⟨_, made, ?_⟩
    show KeyMap.size (s.entries.erase k) < _
    omega

theorem Inv.memory (inv : Inv cfg s) (pos : 0 < cfg.maxPending) : Bounded cfg s := by
  have short : ∀ k e, s.entries.lookup k = some e → e.buffer.length ≤ cfg.maxMessageLength := by
    intro k e he
    rw [(inv.entryOk k e he).bufferLen]
    exact inv.short k e he
  obtain ⟨t, made, room⟩ := inv.ends pos
  refine ⟨⟨t, makeRoomWithin_mono made, room⟩, inv.listed, inv.bounded, short, ?_⟩
  calc KeyMap.total s.entries (fun _ e => e.buffer.length)
      ≤ s.entries.size * cfg.maxMessageLength := KeyMap.total_le short
    _ ≤ cfg.maxPending * cfg.maxMessageLength := Nat.mul_le_mul_right _ inv.bounded

/-- Every run is within the bounds at every point, and its eviction loops end. -/
theorem memory_bounded (cfg : Config) (pos : 1 ≤ cfg.maxPending) (ops : List Op) :
    ∃ t os, run (step cfg) {} ops = .ok (t, os) ∧
      ∀ i ≤ ops.length, ∃ s, run (step cfg) {} (ops.take i) = .ok (s, os.take i) ∧ Bounded cfg s := by
  obtain ⟨t, os, ran, _⟩ := run_ok pos ops (inv_init cfg)
  refine ⟨t, os, ran, ?_⟩
  intro i le
  rw [← List.take_append_drop i ops] at ran
  obtain ⟨s, os₁, os₂, before, _, rfl⟩ := run_append.1 ran
  have len : os₁.length = i := by
    rw [run_length before, List.length_take]
    omega
  rw [List.take_left' len]
  exact ⟨s, before, (inv_of_trace pos (Trace.of_run before)).memory pos⟩

end Memory

section Turns

variable {cfg : Config} {s s' : Reassembler} {now : Nat}

/-- The time an entry was opened at. -/
abbrev seenAt (e : Entry) : Nat := e.firstSeenNs.toNat

/-- The own places of the entries are in the order of their age, none of them from the future. -/
structure Turned (now : Nat) (s : Reassembler) : Prop where
  turn : InTurn seenAt s.order s.entries
  past : ∀ k e, s.entries.lookup k = some e → e.firstSeenNs.toNat ≤ now

theorem Turned.shrink (turned : Turned now s) {later : Nat} (le : now ≤ later)
    (turn : InTurn seenAt s'.order s.entries)
    (old : ∀ k e, s'.entries.lookup k = some e → s.entries.lookup k = some e) : Turned later s' where
  turn := turn.mono old
  past k e he := (turned.past k e (old k e he)).trans le

theorem Turned.open (turned : Turned now s) {k : Key} {e : Entry} (le : now ≤ e.firstSeenNs.toNat) :
    Turned e.firstSeenNs.toNat { s with entries := s.entries.insert k e, order := s.order ++ [k] } where
  turn := turned.turn.push fun j u hu => (turned.past j u hu).trans le
  past j u hu := by
    rw [KeyMap.lookup_insert_eq] at hu
    split at hu
    · cases hu; rfl
    · exact (turned.past j u hu).trans le

theorem inTurn_compact {order : List Key} {entries : Entries} (turn : InTurn seenAt order entries) :
    InTurn seenAt (compact order entries) entries := by
  unfold compact
  split
  · exact turn.filter _
  · exact turn

/-- Every call keeps the own places in order. -/
theorem Turned.step {op : Op} {o : Outcome} (turned : Turned now s) (le : now ≤ op.time.toNat)
    (c : StepCase cfg s op s' o) : Turned op.time.toNat s' := by
  have same := turned.turn
  cases c with
  | @expire _ popped q m out sw =>
    have kept : ∀ k e, m.lookup k = some e → s.entries.lookup k = some e := fun k e he => (sw.lookup_some he).2
    have swept : Turned now { s with entries := m, order := q } := by
      refine turned.shrink le_rfl ?_ kept
      rw [sw.queue] at same
      exact same.suffix
    exact ⟨inTurn_compact swept.turn, fun k e he => (swept.past k e he).trans le⟩
  | @add f now' _ _ c =>
    cases c with
    | whole => exact turned.shrink le same fun _ _ he => he
    | oversize => exact turned.shrink le same fun _ _ he => he
    | duplicate => exact turned.shrink le same fun _ _ he => he
    | inconsistent => exact turned.shrink le same fun _ _ he => lookup_of_erase he
    | completed => exact turned.shrink le same fun _ _ he => lookup_of_erase he
    | @stored e several fits old =>
      refine ⟨same.replace old rfl, fun j u hu => ?_⟩
      rw [KeyMap.lookup_insert_eq] at hu
      split at hu
      · cases hu; exact (turned.past f.key e old).trans le
      · exact (turned.past j u hu).trans le
    | opened => exact turned.open (e := (openEntry f.hdr now').store f) le
    | @displaced k d rest several fits new full victim =>
      obtain ⟨pre, split, _, _⟩ := popFirst_some victim
      have without : Turned now { s with entries := s.entries.erase k, order := rest, evictions := s.evictions + 1 } := by
        refine turned.shrink le_rfl ?_ fun _ _ he => lookup_of_erase he
        rw [split] at same
        exact same.suffix.2
      exact without.open (e := (openEntry f.hdr now').store f) le

theorem turned_run (pos : 0 < cfg.maxPending) {ops : List Op} (clock : Clocked ops) {os : List Outcome}
    (ran : run (Reassembler.step cfg) {} ops = .ok (s, os)) (late : ∀ op ∈ ops, op.time.toNat ≤ now) :
    Turned now s := by
  induction ops using List.reverseRecOn generalizing s os now with
  | nil => cases ran; exact ⟨trivial, by simp⟩
  | append_singleton ops op ih =>
    obtain ⟨u, us, o, ran', hs, rfl⟩ := run_snoc.1 ran
    rw [Clocked, List.map_append, List.pairwise_append] at clock
    have turned : Turned op.time.toNat u := by
      refine ih clock.1 ran' ?_
      intro op' mem
      exact UInt64.le_iff_toNat_le.1 (clock.2.2 _ (List.mem_map_of_mem mem) _ (by simp))
    have inv := inv_of_trace pos (Trace.of_run ran')
    have next := turned.step le_rfl (stepCase_of_step inv pos hs)
    exact ⟨next.turn, fun k e he => (next.past k e he).trans (late op (by simp))⟩

end Turns

section Empty

variable {cfg : Config} {s s' : Reassembler} {op : Op} {o : Outcome}

/-- Without room for any entry, what does not hang takes the ways past the store. -/
theorem stepCase_of_zero (zero : cfg.maxPending = 0) (empty : s.entries = ∅ ∧ s.order = [])
    (h : step cfg s op = .ok (s', o)) : StepCase cfg s op s' o ∧ s'.entries = ∅ ∧ s'.order = [] := by
  obtain ⟨entries, order⟩ := empty
  cases op with
  | add f now =>
    obtain ⟨⟨t, r⟩, added, same⟩ := bind_ok.1 h
    cases same
    have stuck : makeRoom cfg s = .error .diverges := by
      rw [makeRoom, order]
      exact if_neg (by rw [zero]; exact Nat.not_lt_zero _)
    unfold add at added
    split at added
    next single =>
      cases added
      exact ⟨.add (.whole fun several => several single), entries, order⟩
    next several =>
    split at added
    next big =>
      cases added
      exact ⟨.add (.oversize several big), entries, order⟩
    split at added
    next e old =>
      rw [entries] at old
      cases old
    next =>
      rw [stuck] at added
      cases added
  | expire now =>
    obtain ⟨popped, sw⟩ := sweep_spec (due cfg now) s.order s.entries
    have same := h
    simp only [step, expire, expireLoop_eq] at same
    cases same
    refine ⟨.expire sw, ?_⟩
    rw [order, entries]
    exact ⟨rfl, rfl⟩

/-- Whatever the configuration, a step of a run is one of the listed ones. -/
theorem stepCase_of_trace {h : History} (tr : Trace (step cfg) {} h s) (hs : step cfg s op = .ok (s', o)) :
    StepCase cfg s op s' o := by
  rcases Nat.eq_zero_or_pos cfg.maxPending with zero | pos
  · have empty : s.entries = ∅ ∧ s.order = [] :=
      tr.invariant (I := fun t => t.entries = ∅ ∧ t.order = []) ⟨rfl, rfl⟩
        fun _ _ _ _ empty hs => (stepCase_of_zero zero empty hs).2
    exact (stepCase_of_zero zero empty hs).1
  · exact stepCase_of_step (inv_of_trace pos tr) pos hs

end Empty

section Once

variable {cfg : Config} {s s' : Reassembler}

/-- A call that does not reopen a listed key lists no key twice. -/
theorem nodup_step {op : Op} {o : Outcome} (once : s.order.Nodup) (fresh : ¬ Reopens s op)
    (c : StepCase cfg s op s' o) : s'.order.Nodup := by
  have push : ∀ {q : List Key} {k : Key}, q.Nodup → k ∉ q → (q ++ [k]).Nodup := fun once new =>
    List.nodup_append.2 ⟨once, List.nodup_singleton _, fun a ha b hb eq => new (by rwa [← List.mem_singleton.1 hb, ← eq])⟩
  cases c with
  | @expire _ popped q m out sw =>
    rw [sw.queue] at once
    exact (List.nodup_append.1 once).2.1.sublist (compact_sublist q m)
  | @add f now _ _ c =>
    have unlisted : s.entries.lookup f.key = none → f.key ∉ s.order := fun new listed => fresh ⟨f, now, rfl, new, listed⟩
    cases c with
    | opened several fits new => exact push once (unlisted new)
    | @displaced k d rest several fits new full victim =>
      obtain ⟨pre, split, _, _⟩ := popFirst_some victim
      have sub : rest.Sublist s.order := by
        rw [split]; exact (List.sublist_cons_self _ _).trans (List.sublist_append_right _ _)
      exact push (once.sublist sub) fun listed => unlisted new (sub.subset listed)
    | whole => exact once
    | oversize => exact once
    | duplicate => exact once
    | inconsistent => exact once
    | stored => exact once
    | completed => exact once

theorem nodup_run {ops : List Op} (fresh : NoReopening cfg ops ops.length)
    {os : List Outcome} (ran : run (Reassembler.step cfg) {} ops = .ok (s, os)) : s.order.Nodup := by
  induction ops using List.reverseRecOn generalizing s os with
  | nil => cases ran; exact List.nodup_nil
  | append_singleton ops op ih =>
    obtain ⟨u, us, o, ran', hs, rfl⟩ := run_snoc.1 ran
    have once : u.order.Nodup := by
      refine ih ?_ ran'
      intro j op' v vs lt hj hv
      refine fresh j op' v vs (by simp; omega) ?_ ?_
      · rw [List.getElem?_append_left lt]; exact hj
      · rw [List.take_append_of_le_length (by omega)]; exact hv
    have keeps : ¬ Reopens u op := fresh ops.length op u us (by simp) (by simp) (by simpa using ran')
    exact nodup_step once keeps (stepCase_of_trace (Trace.of_run ran') hs)

/-- The calls before one of the run, if none of them reopens a listed key. -/
theorem nodup_at {ops : List Op} {i : Nat} {os : List Outcome} (fresh : NoReopening cfg ops i)
    (ran : run (Reassembler.step cfg) {} (ops.take i) = .ok (s, os)) : s.order.Nodup := by
  refine nodup_run ?_ ran
  intro j op v vs hj hop hv
  have lt : j < i := by rw [List.length_take] at hj; omega
  rw [List.take_take, Nat.min_eq_left lt.le] at hv
  rw [List.getElem?_take_of_lt lt] at hop
  exact fresh j op v vs lt hop hv

end Once

section Eviction

variable {cfg : Config} {s s' : Reassembler} {f : Fragment}

/-- The call of `add` has to evict. -/
def Evicts (cfg : Config) (s : Reassembler) (f : Fragment) : Prop :=
  f.Several ∧ f.hdr.messageLength.toNat ≤ cfg.maxMessageLength ∧ s.entries.lookup f.key = none ∧
    s.entries.size ≥ cfg.maxPending

/-- Beside opening the entry of `f`, the call removes one entry, and none was opened before that one. -/
def RemovesOldest (s s' : Reassembler) (f : Fragment) : Prop :=
  ∃ k d, s.entries.lookup k = some d ∧ (∀ j e, s.entries.lookup j = some e → seenAt d ≤ seenAt e) ∧
    ∀ j, j ≠ f.key → s'.entries.lookup j = if j = k then none else s.entries.lookup j

/-- A call that evicts removes the first pending entry of the queue. -/
theorem AddCase.evicted {now : UInt64} {o : AddOutcome} (c : AddCase cfg s f now s' o) (evicts : Evicts cfg s f) :
    ∃ k d rest, popFirst s.entries s.order = some (k, d, rest) ∧
      ∀ j, j ≠ f.key → s'.entries.lookup j = if j = k then none else s.entries.lookup j := by
  obtain ⟨several, fits, new, full⟩ := evicts
  cases c with
  | @displaced k d rest _ _ _ _ victim =>
    refine ⟨k, d, rest, victim, fun j ne => ?_⟩
    rw [KeyMap.lookup_insert_eq, if_neg ne, KeyMap.lookup_erase_eq]
  | whole single => exact absurd several single
  | oversize _ big => exact absurd fits (not_le.2 big)
  | opened _ _ _ room => exact absurd full (not_le.2 room)
  | inconsistent _ _ old => rw [new] at old; cases old
  | duplicate _ _ old => rw [new] at old; cases old
  | stored _ _ old => rw [new] at old; cases old
  | completed _ _ old => rw [new] at old; cases old

theorem removesOldest_iff {now : Nat} {at_ : UInt64} {o : AddOutcome} (inv : Inv cfg s) (turned : Turned now s)
    (c : AddCase cfg s f at_ s' o) (evicts : Evicts cfg s f) :
    RemovesOldest s s' f ↔ ¬ Overtaken seenAt s.order s.entries := by
  obtain ⟨k, d, rest, first, removed⟩ := c.evicted evicts
  rw [← popFirst_oldest_iff turned.turn inv.listed first]
  obtain ⟨_, _, _, hd⟩ := popFirst_some first
  constructor
  · rintro ⟨k', d', hd', oldest, removed'⟩
    -- the entry that went is the one of `k`
    have ne : k' ≠ f.key := by
      rintro rfl
      rw [evicts.2.2.1] at hd'
      cases hd'
    have gone := (removed' k' ne).symm.trans (removed k' ne)
    rw [if_pos rfl, hd'] at gone
    split at gone
    next same =>
      subst same
      rw [hd] at hd'
      cases hd'
      exact oldest
    next => cases gone
  · exact fun oldest => ⟨k, d, hd, oldest, removed⟩

/-- In a run whose clock does not go back, an eviction removes an oldest entry if and only
if none has overtaken the first pending key of `order_`; a run that never reopens a listed
key always evicts the oldest. -/
theorem evicts_oldest (cfg : Config) (pos : 1 ≤ cfg.maxPending) (ops : List Op) (clock : Clocked ops) :
    ∃ s os, run (step cfg) {} ops = .ok (s, os) ∧
      ∀ i f now o, (ops.zip os)[i]? = some (.add f now, .added o) →
        ∃ u u', run (step cfg) {} (ops.take i) = .ok (u, os.take i) ∧
          step cfg u (.add f now) = .ok (u', .added o) ∧
          (Evicts cfg u f → (RemovesOldest u u' f ↔ ¬ Overtaken seenAt u.order u.entries)) ∧
          (NoReopening cfg ops i → Evicts cfg u f → RemovesOldest u u' f) := by
  obtain ⟨s, os, ran, _⟩ := run_ok pos ops (inv_init cfg)
  refine ⟨s, os, ran, ?_⟩
  intro i f now o hi
  obtain ⟨u, u', before, hs, tr, _⟩ := run_at ran hi
  have inv := inv_of_trace pos tr
  have hop : ops[i]? = some (.add f now) := (List.getElem?_zip_eq_some.1 hi).1
  have turned : Turned now.toNat u := by
    refine turned_run pos ?_ before ?_
    · exact List.Pairwise.sublist ((List.take_sublist i ops).map Op.time) clock
    · intro op mem
      exact UInt64.le_iff_toNat_le.1 (earlier clock hop op mem)
  have exact_iff : Evicts cfg u f → (RemovesOldest u u' f ↔ ¬ Overtaken seenAt u.order u.entries) := by
    intro evicts
    cases stepCase_of_step inv pos hs with
    | add c => exact removesOldest_iff inv turned c evicts
  refine ⟨u, u', before, hs, exact_iff, ?_⟩
  intro fresh evicts
  exact (exact_iff evicts).2 (not_overtaken (nodup_at fresh before))

end Eviction

section Compaction

variable {cfg : Config}

/-- After the loop of `expire`, the keys that are still pending. -/
def left (cfg : Config) (now : UInt64) (s : Reassembler) : List Key :=
  s.entries.keys.filter (stays (due cfg now) s.order s.entries)

/-- And the places of `order_` that hold one of them. -/
def places (cfg : Config) (now : UInt64) (s : Reassembler) : List Key :=
  s.order.filter (stays (due cfg now) s.order s.entries)

/-- Compacting reaches the bound exactly when the pending keys do not fill more places than that. -/
theorem compact_le_iff (order : List Key) (entries : Entries) :
    (compact order entries).length ≤ entries.size * 4 + 64 ↔
      (order.filter fun k => (entries.lookup k).isSome).length ≤ entries.size * 4 + 64 := by
  unfold compact
  split
  next => exact Iff.rfl
  next small =>
    refine iff_of_true (not_lt.1 small) ?_
    exact (List.length_filter_le _ _).trans (not_lt.1 small)

theorem expired_order_le_iff {s s' : Reassembler} {now : UInt64} {o : ExpireOutcome}
    (c : StepCase cfg s (.expire now) s' (.expired o)) :
    s'.order.length ≤ 4 * s'.pending + 64 ↔ (places cfg now s).length ≤ 4 * (left cfg now s).length + 64 := by
  cases c with
  | @expire _ popped q m out sw =>
    rw [pending, Nat.mul_comm 4, Nat.mul_comm 4, compact_le_iff, sw.places, sw.size]
    rfl

/-- Keys that are listed once fill as many places as there are. -/
theorem places_le {s : Reassembler} (once : s.order.Nodup) (cfg : Config) (now : UInt64) :
    (places cfg now s).length ≤ (left cfg now s).length := by
  apply ((once.filter _).subperm _).length_le
  intro k mem
  have live := (List.mem_filter.1 mem).2
  refine List.mem_filter.2 ⟨?_, live⟩
  obtain ⟨v, hv⟩ := Option.isSome_iff_exists.1 (Bool.and_eq_true_iff.1 live).1
  exact KeyMap.mem_keys_of_lookup hv

/-- After a call of `expire` the queue is within its bound if and only if the keys it
leaves pending are within it as often as they are listed; a run that never reopens a
listed key is always within it. -/
theorem order_bounded (cfg : Config) (ops : List Op) (s : Reassembler) (os : List Outcome)
    (ran : run (step cfg) {} ops = .ok (s, os)) (i : Nat) (now : UInt64) (o : ExpireOutcome)
    (hi : (ops.zip os)[i]? = some (.expire now, .expired o)) :
    ∃ u u', run (step cfg) {} (ops.take i) = .ok (u, os.take i) ∧ step cfg u (.expire now) = .ok (u', .expired o) ∧
      (u'.order.length ≤ 4 * u'.pending + 64 ↔ (places cfg now u).length ≤ 4 * (left cfg now u).length + 64) ∧
      (NoReopening cfg ops i → u'.order.length ≤ 4 * u'.pending + 64) := by
  obtain ⟨u, u', before, hs, tr, _⟩ := run_at ran hi
  have bound_iff := expired_order_le_iff (stepCase_of_trace tr hs)
  refine ⟨u, u', before, hs, bound_iff, ?_⟩
  intro fresh
  have once := places_le (nodup_at fresh before) cfg now
  exact bound_iff.2 (by omega)

end Compaction

section Runs

/-- Three messages in turn with room for two: the third one evicts the first one. -/
def crowdedRun : List Op := [.add (half 0 false) 0, .add (half 1 false) 1, .add (half 2 false) 2]

def crowdedOutcomes : List Outcome :=
  [.added ⟨.incomplete, {}, true⟩, .added ⟨.incomplete, {}, true⟩, .added ⟨.incomplete, {}, true⟩]

theorem crowdedRun_outcomes : observations (step { maxPending := 2 }) {} crowdedRun = some crowdedOutcomes := by
  decide +kernel

theorem memory_bounded_crowded :
    1 ≤ 2 ∧ ∃ t os, run (step { maxPending := 2 }) {} crowdedRun = .ok (t, os) ∧
      ∀ i ≤ 3, ∃ s, run (step { maxPending := 2 }) {} (crowdedRun.take i) = .ok (s, os.take i) ∧
        Bounded { maxPending := 2 } s :=
  ⟨by decide, memory_bounded { maxPending := 2 } (by decide) crowdedRun⟩

theorem evicts_oldest_crowded : Clocked crowdedRun ∧
    ∃ s os, run (step { maxPending := 2 }) {} crowdedRun = .ok (s, os) ∧
      ∃ u u', run (step { maxPending := 2 }) {} (crowdedRun.take 2) = .ok (u, os.take 2) ∧
        step { maxPending := 2 } u (.add (half 2 false) 2) = .ok (u', .added ⟨.incomplete, {}, true⟩) ∧
        (Evicts { maxPending := 2 } u (half 2 false) →
          (RemovesOldest u u' (half 2 false) ↔ ¬ Overtaken seenAt u.order u.entries)) := by
  have clock : Clocked crowdedRun := by unfold Clocked; decide +kernel
  obtain ⟨s, os, ran, all⟩ := evicts_oldest { maxPending := 2 } (by decide) crowdedRun clock
  obtain rfl := observations_of_run ran crowdedRun_outcomes
  obtain ⟨u, u', before, hs, iff, _⟩ := all 2 (half 2 false) 2 ⟨.incomplete, {}, true⟩ rfl
  exact ⟨clock, s, _, ran, u, u', before, hs, iff⟩

/-- One sweep of a run, which finds a key listed twice. -/
theorem order_bounded_stale : ∃ s, run (step {}) {} staleRun = .ok (s, staleOutcomes) ∧
    ∃ u u', run (step {}) {} (staleRun.take 4) = .ok (u, staleOutcomes.take 4) ∧
      step {} u (.expire 501000000) = .ok (u', .expired ⟨0, []⟩) ∧
      (u'.order.length ≤ 4 * u'.pending + 64 ↔
        (places {} 501000000 u).length ≤ 4 * (left {} 501000000 u).length + 64) := by
  obtain ⟨s, ran⟩ := run_of_observations staleRun_outcomes
  obtain ⟨u, u', before, hs, iff, _⟩ := order_bounded {} staleRun s staleOutcomes ran 4 501000000 ⟨0, []⟩ rfl
  exact ⟨s, ran, u, u', before, hs, iff⟩

/-- With room for two, message 0 completes and comes back behind message 1; its first
place in `order_` makes it the one that message 2 evicts. -/
def overtakenRun : List Op :=
  [.add (half 0 false) 0, .add (half 1 false) 1, .add (half 0 true) 2, .add (half 0 false) 3, .add (half 2 false) 4]

def overtakenOutcomes : List Outcome :=
  [.added ⟨.incomplete, {}, true⟩, .added ⟨.incomplete, {}, true⟩,
    .added ⟨.complete, { sourceId := 1, flags := 1, data := [9, 9], length := 2 }, false⟩,
    .added ⟨.incomplete, {}, true⟩, .added ⟨.incomplete, {}, true⟩]

theorem overtakenRun_outcomes :
    observations (step { maxPending := 2 }) {} overtakenRun = some overtakenOutcomes := by decide +kernel

/-- When the entries of message 0 and message 1 were opened, in the state after the run. -/
def openedAt (ops : List Op) : Option (Option UInt64 × Option UInt64) :=
  (run (step { maxPending := 2 }) {} ops).toOption.map fun r =>
    ((r.1.entries.lookup ⟨1, 0⟩).map Entry.firstSeenNs, (r.1.entries.lookup ⟨1, 1⟩).map Entry.firstSeenNs)

/-- It is false that the oldest entry is evicted: here the younger one of two is. -/
theorem younger_evicted :
    ¬ ∀ (cfg : Config) (ops : List Op) (s : Reassembler) (os : List Outcome), 1 ≤ cfg.maxPending → Clocked ops →
      run (step cfg) {} ops = .ok (s, os) →
      ∀ i f now o u u', (ops.zip os)[i]? = some (.add f now, .added o) →
        run (step cfg) {} (ops.take i) = .ok (u, os.take i) → step cfg u (.add f now) = .ok (u', .added o) →
        Evicts cfg u f → RemovesOldest u u' f := by
  intro always
  obtain ⟨s, ran⟩ := run_of_observations overtakenRun_outcomes
  obtain ⟨u, u', before, hs, _, _⟩ := run_at (i := 4) ran rfl
  have after : run (step { maxPending := 2 }) {} overtakenRun = .ok (u', _) := run_snoc.2 ⟨u, _, _, before, hs, rfl⟩
  have hu : openedAt (overtakenRun.take 4) = some (some 3, some 1) := by decide +kernel
  have hu' : openedAt overtakenRun = some (none, some 1) := by decide +kernel
  have full : ((run (step { maxPending := 2 }) {} (overtakenRun.take 4)).toOption.map fun r =>
      (r.1.entries.size, (r.1.entries.lookup (half 2 false).key).isSome)) = some (2, false) := by decide +kernel
  rw [openedAt, before] at hu
  rw [openedAt, after] at hu'
  rw [before] at full
  simp only [Except.toOption, Option.map_some, Option.some.injEq, Prod.mk.injEq] at hu hu' full
  obtain ⟨young, hyoung, seen⟩ := Option.map_eq_some_iff.1 hu.1
  obtain ⟨old, hold, seen'⟩ := Option.map_eq_some_iff.1 hu.2
  have new : u.entries.lookup (half 2 false).key = none := Option.not_isSome_iff_eq_none.1 (by rw [full.2]; exact Bool.false_ne_true)
  have evicts : Evicts { maxPending := 2 } u (half 2 false) := ⟨by decide, by decide, new, full.1.ge⟩
  obtain ⟨k, d, hd, oldest, removed⟩ :=
    always { maxPending := 2 } overtakenRun s _ (by decide) (by unfold Clocked; decide +kernel) ran 4 (half 2 false) 4 _ u u'
      rfl before hs evicts
  -- message 0 is gone, so it was the one removed
  have gone := removed ⟨1, 0⟩ (by decide)
  rw [Option.map_eq_none_iff.1 hu'.1, hyoung] at gone
  split at gone
  next here =>
    subst here
    rw [hyoung] at hd
    cases hd
    have le := oldest ⟨1, 1⟩ old hold
    rw [seenAt, seenAt, seen, seen'] at le
    exact absurd le (by decide)
  next => cases gone

/-- Message 0 completes and comes back `n` times. -/
def churn (n : Nat) : List Op :=
  .add (half 0 false) 0 :: (List.replicate n [.add (half 0 true) 0, .add (half 0 false) 0]).flatten

/-- The lengths of `order_` and of the store after a run. -/
def sizesAfter (ops : List Op) : Option (Nat × Nat) :=
  (run (step {}) {} ops).toOption.map fun r => (r.1.order.length, r.1.pending)

/-- It is false that `expire` bounds the queue: it keeps 69 places of one pending key. -/
theorem places_accumulate :
    ¬ ∀ (cfg : Config) (ops : List Op) (s : Reassembler) (os : List Outcome), run (step cfg) {} ops = .ok (s, os) →
      ∀ i now o u u', (ops.zip os)[i]? = some (.expire now, .expired o) →
        run (step cfg) {} (ops.take i) = .ok (u, os.take i) → step cfg u (.expire now) = .ok (u', .expired o) →
        u'.order.length ≤ 4 * u'.pending + 64 := by
  intro always
  have sizes : sizesAfter (churn 68 ++ [.expire 0]) = some (69, 1) := by decide +kernel
  rcases ran : run (step {}) {} (churn 68 ++ [.expire 0]) with fault | ⟨s, os⟩
  · rw [sizesAfter, ran] at sizes
    cases sizes
  rw [sizesAfter, ran] at sizes
  simp only [Except.toOption, Option.map_some, Option.some.injEq, Prod.mk.injEq] at sizes
  obtain ⟨u, us, o, before, hs, rfl⟩ := run_snoc.1 ran
  obtain ⟨o, rfl⟩ : ∃ o', o = .expired o' := by
    cases hs
    exact ⟨_, rfl⟩
  have len : us.length = (churn 68).length := run_length before
  have here : ((churn 68 ++ [Op.expire 0]).zip (us ++ [Outcome.expired o]))[(churn 68).length]? =
      some (Op.expire 0, Outcome.expired o) := by
    rw [List.zip_append len.symm, List.getElem?_append_right (by simp [len])]
    simp [len]
  have le := always {} _ s _ ran (churn 68).length 0 o u s here (by rw [List.take_left, List.take_left' len]; exact before) hs
  omega

end Runs

end IpcRelay.Reassembler
