import IpcRelay.Receiver.Assembly

/-!
# When `expire` is exact

`expire` pops `order_` and stops at the first young key. `Exact` is what it is
for: every entry past its timeout is removed and reported once, every younger
one stays. In a run whose clock does not go back a call is exact if and only if
no overdue entry is `Hidden`, that is, listed in `order_` only behind a younger
pending entry (`expire_exact`). `order_` keeps the key of an entry that left the
store otherwise, and a key that is opened again while such a copy is still there
is listed out of turn; without that nothing is ever hidden.
-/

namespace IpcRelay.Reassembler

open Wire ExpiryQueue Machine

/-- The entry that the fragments `held` make has reached its timeout: they start with
the one that opened it. -/
def Overdue (cfg : Config) (now : UInt64) (held : List Arrival) : Prop :=
  ∃ a rest, held = a :: rest ∧ a.now.toNat + cfg.timeoutNs.toNat ≤ now.toNat

/-- The invocation of the callback that an entry of `k` made of `held` calls for. -/
def Reports (k : Key) (held : List Arrival) (m : ExpiredMessage) : Prop :=
  m.sourceId = k.sourceId ∧ m.sequence = k.sequence ∧ m.fragmentsReceived.toNat = held.length ∧
    ∀ a ∈ held, a.frag.hdr.fragmentCount = m.fragmentCount

/-- What a call of `expire` is to do after the history `h`. -/
structure Exact (cfg : Config) (h : History) (now : UInt64) (s s' : Reassembler) (o : ExpireOutcome) : Prop where
  removed : ∀ k e, s.entries.lookup k = some e → Overdue cfg now (sinceOpened k h) → s'.entries.lookup k = none
  kept : ∀ k e, s.entries.lookup k = some e → ¬ Overdue cfg now (sinceOpened k h) → s'.entries.lookup k = some e
  old : ∀ k, s.entries.lookup k = none → s'.entries.lookup k = none
  told : ∀ k e, s.entries.lookup k = some e → Overdue cfg now (sinceOpened k h) →
    ∃ m ∈ o.notified, Reports k (sinceOpened k h) m
  true : ∀ m ∈ o.notified, ∃ k e, s.entries.lookup k = some e ∧ Overdue cfg now (sinceOpened k h) ∧
    Reports k (sinceOpened k h) m
  once : (o.notified.map fun m => Key.mk m.sourceId m.sequence).Nodup
  returned : o.expired = o.notified.length

/-- The call opens an entry for a key that `order_` still lists from an earlier time. -/
def Reopens (s : Reassembler) (op : Op) : Prop :=
  ∃ f now, op = .add f now ∧ s.entries.lookup f.key = none ∧ f.key ∈ s.order

/-- The clock readings of the calls do not decrease. -/
def Clocked (ops : List Op) : Prop := (ops.map Op.time).Pairwise (· ≤ ·)

section Age

variable {cfg : Config} {k : Key} {e : Entry} {held : List Arrival} {h : History}

/-- The calls before one are no later than it. -/
theorem earlier {ops : List Op} {i : Nat} {op : Op} (clock : Clocked ops) (hi : ops[i]? = some op) :
    ∀ op' ∈ ops.take i, op'.time ≤ op.time := by
  rw [Clocked, ← List.take_append_drop i ops, List.map_append, List.pairwise_append] at clock
  intro op' mem
  have here : op ∈ ops.drop i := List.mem_of_getElem? (i := 0) (by rw [List.getElem?_drop]; exact hi)
  exact clock.2.2 _ (List.mem_map_of_mem mem) _ (List.mem_map_of_mem here)

/-- The program's 64-bit age is the true one, as the clock did not go back. -/
theorem due_iff {now : UInt64} (holds : Holds k e held) (past : ∀ a ∈ held, a.now ≤ now) :
    due cfg now e = true ↔ Overdue cfg now held := by
  obtain ⟨a, rest, rfl, seen, _⟩ := holds.first
  have le : e.firstSeenNs ≤ now := by rw [seen]; exact past a (by simp)
  have age := UInt64.toNat_sub_of_le _ _ le
  have le' := UInt64.le_iff_toNat_le.1 le
  rw [due, decide_eq_true_iff, UInt64.lt_iff_toNat_lt, age, seen]
  rw [seen] at le'
  constructor
  · intro old
    exact ⟨a, rest, rfl, by omega⟩
  · rintro ⟨b, rest', eq, old⟩
    obtain ⟨rfl, rfl⟩ := List.cons.inj eq
    omega

end Age

section Exact

variable {cfg : Config} {s s' : Reassembler} {h : History} {now : UInt64} {o : ExpireOutcome}

/-- The report of an entry tells what was taken in for it. -/
theorem reports_expiredOf {k : Key} {e : Entry} {held : List Arrival} (holds : Holds k e held) :
    Reports k held (expiredOf k e) :=
  ⟨rfl, rfl, holds.counted, fun a ha => (holds.same a ha).1⟩

theorem exact_iff (tracked : Tracked h s) (past : ∀ x ∈ h, x.1.time ≤ now)
    (c : StepCase cfg s (.expire now) s' (.expired o)) :
    Exact cfg h now s s' o ↔ ∀ k, ¬ Hidden (due cfg now) s.order s.entries k := by
  cases c with
  | @expire _ popped q m out sw =>
  have dueIff : ∀ k e, s.entries.lookup k = some e → (due cfg now e = true ↔ Overdue cfg now (sinceOpened k h)) := by
    intro k e he
    apply due_iff (tracked k e he)
    intro a ha
    obtain ⟨o, ho⟩ := arrival_in_history ha
    exact past _ ho
  constructor
  · intro exact k
    refine sw.complete_iff.1 ?_ k
    intro k v hv old
    exact exact.removed k v hv ((dueIff k v hv).1 old)
  · intro clear
    have complete := sw.complete_iff.2 clear
    constructor
    · intro k e he old
      exact complete k e he ((dueIff k e he).2 old)
    · intro k e he young
      refine sw.keeps he ?_
      rw [← Bool.not_eq_true, dueIff k e he]
      exact young
    · intro k hk
      show m.lookup k = .none
      rw [sw.lookup k, hk, ite_self]
    · intro k e he old
      have gone := complete k e he ((dueIff k e he).2 old)
      exact ⟨expiredOf k e, List.mem_map.2 ⟨(k, e), sw.removed_iff.2 ⟨he, gone⟩, rfl⟩,
        reports_expiredOf (tracked k e he)⟩
    · intro r hr
      obtain ⟨⟨k, e⟩, hke, rfl⟩ := List.mem_map.1 hr
      obtain ⟨hpop, he⟩ := (sw.removed k e).1 hke
      exact ⟨k, e, he, (dueIff k e he).1 (sw.allDue k hpop e he), reports_expiredOf (tracked k e he)⟩
    · rw [List.map_map]
      exact sw.once
    · exact (List.length_map _).symm

end Exact

section Order

variable {cfg : Config} {s s' : Reassembler} {now : Nat}

/-- `order_` lists the entries by age, none of them from the future. -/
structure Aged (now : Nat) (s : Reassembler) : Prop where
  ordered : Ordered (fun e : Entry => e.firstSeenNs.toNat) s.order s.entries
  past : ∀ k e, s.entries.lookup k = some e → e.firstSeenNs.toNat ≤ now

theorem Aged.shrink (aged : Aged now s) {later : Nat} (le : now ≤ later) (sub : s'.order.Sublist s.order)
    (old : ∀ k e, s'.entries.lookup k = some e → s.entries.lookup k = some e) : Aged later s' where
  ordered := aged.ordered.mono sub old
  past k e he := (aged.past k e (old k e he)).trans le

theorem Aged.open (aged : Aged now s) {k : Key} {e : Entry} (le : now ≤ e.firstSeenNs.toNat) (new : k ∉ s.order) :
    Aged e.firstSeenNs.toNat { s with entries := s.entries.insert k e, order := s.order ++ [k] } where
  ordered := aged.ordered.push new fun j u hu => (aged.past j u hu).trans le
  past j u hu := by
    rw [KeyMap.lookup_insert_eq] at hu
    split at hu
    · cases hu; rfl
    · exact (aged.past j u hu).trans le

theorem Aged.store (aged : Aged now s) {k : Key} {e d : Entry} {later : Nat} (le : now ≤ later)
    (old : s.entries.lookup k = some e) (same : d.firstSeenNs = e.firstSeenNs) :
    Aged later { s with entries := s.entries.insert k d } where
  ordered := aged.ordered.replace old (congrArg UInt64.toNat same)
  past j u hu := by
    rw [KeyMap.lookup_insert_eq] at hu
    split at hu
    · cases hu; rw [same]; exact (aged.past k e old).trans le
    · exact (aged.past j u hu).trans le

/-- A call that does not reopen a listed key keeps the order. -/
theorem Aged.step {op : Op} {o : Outcome} (aged : Aged now s) (le : now ≤ op.time.toNat) (fresh : ¬ Reopens s op)
    (c : StepCase cfg s op s' o) : Aged op.time.toNat s' := by
  cases c with
  | expire sw =>
    refine aged.shrink le ?_ fun k e he => (sw.lookup_some he).2
    show (compact _ _).Sublist _
    refine (compact_sublist _ _).trans ?_
    rw [sw.queue]
    exact List.sublist_append_right _ _
  | @add f now' _ _ c =>
    have unlisted : s.entries.lookup f.key = none → f.key ∉ s.order := fun new listed => fresh ⟨f, now', rfl, new, listed⟩
    cases c with
    | whole => exact aged.shrink le (List.Sublist.refl _) fun _ _ he => he
    | oversize => exact aged.shrink le (List.Sublist.refl _) fun _ _ he => he
    | duplicate => exact aged.shrink le (List.Sublist.refl _) fun _ _ he => he
    | inconsistent => exact aged.shrink le (List.Sublist.refl _) fun _ _ he => lookup_of_erase he
    | completed => exact aged.shrink le (List.Sublist.refl _) fun _ _ he => lookup_of_erase he
    | stored several fits old => exact aged.store le old rfl
    | opened several fits new =>
      exact aged.open (e := (openEntry f.hdr now').store f) le (unlisted new)
    | @displaced k d rest several fits new full victim =>
      obtain ⟨pre, split, _, _⟩ := popFirst_some victim
      have sub : rest.Sublist s.order := by
        rw [split]; exact (List.sublist_cons_self _ _).trans (List.sublist_append_right _ _)
      have without : Aged now { s with entries := s.entries.erase k, order := rest, evictions := s.evictions + 1 } :=
        aged.shrink (Nat.le_refl now) sub fun _ _ he => lookup_of_erase he
      exact without.open (e := (openEntry f.hdr now').store f) le fun h => unlisted new (sub.subset h)

/-- No call of the list, up to place `i`, reopens a listed key. -/
def NoReopening (cfg : Config) (ops : List Op) (i : Nat) : Prop :=
  ∀ j op v vs, j < i → ops[j]? = some op → run (Reassembler.step cfg) {} (ops.take j) = .ok (v, vs) → ¬ Reopens v op

theorem aged_run (pos : 0 < cfg.maxPending) {ops : List Op} (clock : Clocked ops)
    (fresh : NoReopening cfg ops ops.length) {os : List Outcome} (ran : run (Reassembler.step cfg) {} ops = .ok (s, os))
    (late : ∀ op ∈ ops, op.time.toNat ≤ now) : Aged now s := by
  induction ops using List.reverseRecOn generalizing s os now with
  | nil => cases ran; exact ⟨List.Pairwise.nil, by simp⟩
  | append_singleton ops op ih =>
    obtain ⟨u, us, o, ran', hs, rfl⟩ := run_snoc.1 ran
    rw [Clocked, List.map_append, List.pairwise_append] at clock
    have aged : Aged op.time.toNat u := by
      refine ih clock.1 ?_ ran' ?_
      · intro j op' v vs lt hj hv
        refine fresh j op' v vs (by simp; omega) ?_ ?_
        · rw [List.getElem?_append_left lt]; exact hj
        · rw [List.take_append_of_le_length (by omega)]; exact hv
      · intro op' mem
        exact UInt64.le_iff_toNat_le.1 (clock.2.2 _ (List.mem_map_of_mem mem) _ (by simp))
    have inv := inv_of_trace pos (Trace.of_run ran')
    have keeps : ¬ Reopens u op := fresh ops.length op u us (by simp) (by simp) (by simpa using ran')
    have next := aged.step (Nat.le_refl _) keeps (stepCase_of_step inv pos hs)
    exact next.shrink (late op (by simp)) (List.Sublist.refl _) fun _ _ he => he

/-- In an ordered queue nothing is hidden from the loop of `expire`. -/
theorem Aged.not_hidden {now : UInt64} (aged : Aged now.toNat s) (listed : Listed s.order s.entries) (k : Key) :
    ¬ Hidden (due cfg now) s.order s.entries k := by
  apply aged.ordered.not_hidden listed
  intro j k u v hu hv le old
  have ju := UInt64.toNat_sub_of_le _ _ (UInt64.le_iff_toNat_le.2 (aged.past j u hu))
  have kv := UInt64.toNat_sub_of_le _ _ (UInt64.le_iff_toNat_le.2 (aged.past k v hv))
  have := aged.past k v hv
  rw [due, decide_eq_true_iff, UInt64.lt_iff_toNat_lt] at old ⊢
  omega

end Order

/-- In a run whose clock does not go back, a call of `expire` is exact if and only if no
overdue entry is hidden in `order_`; a run that never reopens a listed key hides none. -/
theorem expire_exact (cfg : Config) (pos : 0 < cfg.maxPending) (ops : List Op) (clock : Clocked ops) :
    ∃ s os, run (step cfg) {} ops = .ok (s, os) ∧
      ∀ i now o, (ops.zip os)[i]? = some (.expire now, .expired o) →
        ∃ u u', run (step cfg) {} (ops.take i) = .ok (u, os.take i) ∧
          step cfg u (.expire now) = .ok (u', .expired o) ∧
          (Exact cfg ((ops.zip os).take i) now u u' o ↔ ∀ k, ¬ Hidden (due cfg now) u.order u.entries k) ∧
          (NoReopening cfg ops i → Exact cfg ((ops.zip os).take i) now u u' o) := by
  obtain ⟨s, os, ran, _⟩ := run_ok pos ops (inv_init cfg)
  refine ⟨s, os, ran, ?_⟩
  intro i now o hi
  obtain ⟨u, u', before, hs, tr, _⟩ := run_at ran hi
  obtain ⟨inv, tracked⟩ := tracked_of_trace pos tr
  have hop : ops[i]? = some (.expire now) := (List.getElem?_zip_eq_some.1 hi).1
  have past := earlier clock hop
  have past' : ∀ x ∈ (ops.zip os).take i, x.1.time ≤ now := by
    intro x hx
    apply past
    have fst : (ops.zip os).map Prod.fst = ops := List.map_fst_zip (run_length ran).ge
    rw [← fst, ← List.map_take]
    exact List.mem_map_of_mem hx
  have exact_iff := exact_iff tracked past' (stepCase_of_step inv pos hs)
  refine ⟨u, u', before, hs, exact_iff, ?_⟩
  intro fresh
  refine exact_iff.2 (Aged.not_hidden (aged_run pos ?_ ?_ before ?_) inv.listed)
  · exact List.Pairwise.sublist ((List.take_sublist i ops).map Op.time) clock
  · intro j op v vs hj hop hv
    have lt : j < i := by rw [List.length_take] at hj; omega
    rw [List.take_take, Nat.min_eq_left lt.le] at hv
    rw [List.getElem?_take_of_lt lt] at hop
    exact fresh j op v vs lt hop hv
  · intro op mem
    exact UInt64.le_iff_toNat_le.1 (past op mem)

section Runs

/-- Half of a two-byte message of source 1. -/
def half (sequence : UInt64) (second : Bool) : Fragment :=
  .encode
    { flags := 1, sourceId := 1, messageLength := 2, sequence := sequence, fragmentCount := 2, fragmentLength := 1,
      fragmentOffset := if second then 1 else 0, fragmentIndex := if second then 1 else 0 }
    [9] rfl (by cases second <;> constructor <;> simp [kFlagFragmented]) rfl

/-- Message 0 completes and comes back while `order_` lists its first copy in front of
message 1, which reaches its timeout of 500 ms unseen. -/
def staleRun : List Op :=
  [.add (half 0 false) 0, .add (half 1 false) 1000000, .add (half 0 true) 2000000, .add (half 0 false) 400000000,
    .expire 501000000]

def staleOutcomes : List Outcome :=
  [.added ⟨.incomplete, {}, true⟩, .added ⟨.incomplete, {}, true⟩,
    .added ⟨.complete, { sourceId := 1, flags := 1, data := [9, 9], length := 2 }, false⟩,
    .added ⟨.incomplete, {}, true⟩, .expired ⟨0, []⟩]

theorem staleRun_outcomes : observations (step {}) {} staleRun = some staleOutcomes := by decide +kernel

theorem expire_exact_stale : Clocked staleRun ∧
    ∃ s os, run (step {}) {} staleRun = .ok (s, os) ∧ ∃ u u' o, run (step {}) {} (staleRun.take 4) = .ok (u, os.take 4) ∧
      step {} u (.expire 501000000) = .ok (u', .expired o) ∧
      (Exact {} ((staleRun.zip os).take 4) 501000000 u u' o ↔
        ∀ k, ¬ Hidden (due {} 501000000) u.order u.entries k) := by
  have clock : Clocked staleRun := by unfold Clocked; decide +kernel
  obtain ⟨s, os, ran, all⟩ := expire_exact {} (by decide) staleRun clock
  obtain rfl := observations_of_run ran staleRun_outcomes
  obtain ⟨u, u', before, hs, iff, _⟩ := all 4 501000000 ⟨0, []⟩ rfl
  exact ⟨clock, s, _, ran, u, u', _, before, hs, iff⟩

/-- It is false that every call of `expire` is exact: here an overdue entry stays. -/
theorem overdue_survives :
    ¬ ∀ (cfg : Config) (ops : List Op) (s : Reassembler) (os : List Outcome), 0 < cfg.maxPending → Clocked ops →
      run (step cfg) {} ops = .ok (s, os) →
      ∀ i now o u u', (ops.zip os)[i]? = some (.expire now, .expired o) →
        run (step cfg) {} (ops.take i) = .ok (u, os.take i) → step cfg u (.expire now) = .ok (u', .expired o) →
        Exact cfg ((ops.zip os).take i) now u u' o := by
  intro always
  obtain ⟨s, ran⟩ := run_of_observations staleRun_outcomes
  obtain ⟨u, u', before, hs, tr, _⟩ := run_at (i := 4) ran rfl
  have exact := always {} staleRun s _ (by decide) (by unfold Clocked; decide +kernel) ran 4 _ _ u u' rfl before hs
  -- message 1 is pending before the call, made of its first half, and nothing is reported
  have pending : ((run (step {}) {} (staleRun.take 4)).toOption.map fun r => (r.1.entries.lookup ⟨1, 1⟩).isSome) =
      some true := by decide +kernel
  rw [before] at pending
  obtain ⟨e, he⟩ := Option.isSome_iff_exists.1 (Option.some.inj pending)
  have held : sinceOpened ⟨1, 1⟩ ((staleRun.zip staleOutcomes).take 4) = [⟨half 1 false, 1000000⟩] := rfl
  obtain ⟨m, hm, _⟩ := exact.told _ e he ⟨_, [], held, by decide⟩
  simp at hm

end Runs

end IpcRelay.Reassembler
