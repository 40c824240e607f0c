import IpcRelay.Lib.KeyMap
import IpcRelay.Lib.SequenceGaps

/-!
# Sequence gap detection (`sequence_tracker.hpp`, `sequence_tracker.cpp`)

The tracker keeps of each source the last sequence number and adds up what a
number above the expected one skips. `missing_eq` says what it adds up: the
`skips` of the numbers observed, each stretch of which ends where a number far
below the last one, or 0, is taken for a restart of the bridge.
-/

namespace IpcRelay

open SequenceGaps

structure SourceSequenceState where
  seen : Bool := false
  lastSequence : UInt64 := 0
  gapEvents : Nat := 0
  missing : UInt64 := 0
  outOfOrder : Nat := 0
  deriving DecidableEq, Repr

namespace SequenceTracker

inductive Outcome where
  | first
  | inOrder
  | gap
  | outOfOrder
  deriving DecidableEq, Repr

end SequenceTracker

structure SequenceTracker where
  sources : KeyMap UInt32 SourceSequenceState := ∅

namespace SequenceTracker

/-- `observe` on the record of its source, with the output parameter `missing`. -/
def observeState (s : SourceSequenceState) (seq : UInt64) : SourceSequenceState × Outcome × UInt64 :=
  if ¬ s.seen then ({ s with seen := true, lastSequence := seq }, .first, 0)
  else
    let expected := s.lastSequence + 1
    if seq = expected then ({ s with lastSequence := seq }, .inOrder, 0)
    else if seq > expected then
      let missing := seq - expected
      ({ s with missing := s.missing + missing, gapEvents := s.gapEvents + 1, lastSequence := seq }, .gap, missing)
    else
      let s := { s with outOfOrder := s.outOfOrder + 1 }
      -- a large jump backwards: the source restarted
      if seq + 1000 < s.lastSequence ∨ seq = 0 then ({ s with lastSequence := seq }, .outOfOrder, 0)
      else (s, .outOfOrder, 0)

/-- `observe`. -/
def observe (t : SequenceTracker) (sourceId : UInt32) (seq : UInt64) : SequenceTracker × Outcome × UInt64 :=
  let s := KeyMap.get {} t.sources sourceId
  ({ t with sources := t.sources.insert sourceId (observeState s seq).1 }, (observeState s seq).2)

/-- A list of calls. -/
def observeAll (t : SequenceTracker) (calls : List (UInt32 × UInt64)) : SequenceTracker :=
  calls.foldl (fun t c => (t.observe c.1 c.2).1) t

/-- The record of a source. -/
def stateOf (t : SequenceTracker) (k : UInt32) : SourceSequenceState := KeyMap.get {} t.sources k

/-- The sequence numbers observed for a source, in order of arrival. -/
def observed (k : UInt32) (calls : List (UInt32 × UInt64)) : List UInt64 :=
  (calls.filter fun c => c.1 = k).map Prod.snd

/-- A number that is taken for a restart after the highest number `h`. -/
def restarts (h x : ℕ) : Bool := decide (x < h ∧ (x + 1000 < h ∨ x = 0))

/-- The call is about its own source only. -/
theorem stateOf_observe (t : SequenceTracker) (j k : UInt32) (seq : UInt64) :
    (t.observe j seq).1.stateOf k = if k = j then (observeState (t.stateOf j) seq).1 else t.stateOf k := by
  unfold stateOf observe KeyMap.get
  rw [KeyMap.lookup_insert_eq]
  split <;> rfl

theorem stateOf_observeAll (t : SequenceTracker) (calls : List (UInt32 × UInt64)) (k : UInt32) :
    (t.observeAll calls).stateOf k = (observed k calls).foldl (fun s seq => (observeState s seq).1) (t.stateOf k) := by
  induction calls generalizing t with
  | nil => rfl
  | cons c calls ih =>
    show ((t.observe c.1 c.2).1.observeAll calls).stateOf k = _
    rw [ih, stateOf_observe]
    by_cases own : c.1 = k
    · simp [observed, own]
    · simp [observed, own, Ne.symm own]

section Observe

variable {s : SourceSequenceState} {seq : UInt64}

theorem observeState_first (new : s.seen = false) :
    observeState s seq = ({ s with seen := true, lastSequence := seq }, .first, 0) := by
  simp [observeState, new]

theorem expected_toNat (lowLast : s.lastSequence.toNat + 1 < 2 ^ 64) :
    (s.lastSequence + 1).toNat = s.lastSequence.toNat + 1 := by
  rw [UInt64.toNat_add, UInt64.toNat_one]; omega

theorem observeState_inOrder (seen : s.seen = true) (lowLast : s.lastSequence.toNat + 1 < 2 ^ 64)
    (eq : seq.toNat = s.lastSequence.toNat + 1) :
    observeState s seq = ({ s with lastSequence := seq }, .inOrder, 0) := by
  have expected : seq = s.lastSequence + 1 := UInt64.toNat_inj.1 (eq.trans (expected_toNat lowLast).symm)
  simp [observeState, seen, ← expected]

theorem observeState_gap (seen : s.seen = true) (lowLast : s.lastSequence.toNat + 1 < 2 ^ 64)
    (lt : s.lastSequence.toNat + 1 < seq.toNat) :
    observeState s seq =
      ({ s with missing := s.missing + UInt64.ofNat (seq.toNat - s.lastSequence.toNat - 1),
                gapEvents := s.gapEvents + 1, lastSequence := seq },
        .gap, UInt64.ofNat (seq.toNat - s.lastSequence.toNat - 1)) := by
  have expected := expected_toNat lowLast
  have above : s.lastSequence + 1 < seq := UInt64.lt_iff_toNat_lt.2 (by rw [expected]; exact lt)
  have off : seq ≠ s.lastSequence + 1 := by
    intro h
    have := congrArg UInt64.toNat h
    omega
  have diff : (seq - (s.lastSequence + 1)).toNat = seq.toNat - s.lastSequence.toNat - 1 := by
    rw [UInt64.toNat_sub_of_le _ _ (UInt64.le_of_lt above), expected]; omega
  rw [← diff, UInt64.ofNat_toNat]
  simp [observeState, seen, off, above]

theorem observeState_back (seen : s.seen = true) (low : seq.toNat + 1000 < 2 ^ 64)
    (lowLast : s.lastSequence.toNat + 1 < 2 ^ 64) (le : seq.toNat ≤ s.lastSequence.toNat) :
    observeState s seq =
      ({ s with outOfOrder := s.outOfOrder + 1,
                lastSequence := if restarts s.lastSequence.toNat seq.toNat then seq else s.lastSequence },
        .outOfOrder, 0) := by
  have expected := expected_toNat lowLast
  have off : seq ≠ s.lastSequence + 1 := by
    intro h
    have := congrArg UInt64.toNat h
    omega
  have below : ¬ seq > s.lastSequence + 1 := by
    intro h
    have := UInt64.lt_iff_toNat_lt.1 h
    omega
  have far : (seq + 1000).toNat = seq.toNat + 1000 := by
    rw [UInt64.toNat_add]
    show (seq.toNat + 1000) % 2 ^ 64 = _
    omega
  have jump : (seq + 1000 < s.lastSequence ∨ seq = 0) ↔
      (seq.toNat + 1000 < s.lastSequence.toNat ∨ seq.toNat = 0) := by
    rw [UInt64.lt_iff_toNat_lt, far, ← UInt64.toNat_inj]
    rfl
  rw [observeState, if_neg (not_not.2 seen)]
  dsimp only
  rw [if_neg off, if_neg below]
  by_cases back : seq + 1000 < s.lastSequence ∨ seq = 0
  · rw [if_pos back]
    have back' := jump.1 back
    rcases Nat.lt_or_eq_of_le le with lt | eq
    · rw [restarts, decide_eq_true ⟨lt, back'⟩, if_pos rfl]
    · -- 0 after 0: starting over changes nothing
      rw [UInt64.toNat_inj.1 eq, ite_self]
  · have stay : restarts s.lastSequence.toNat seq.toNat = false :=
      decide_eq_false fun h => back (jump.2 h.2)
    rw [if_neg back, stay, if_neg Bool.false_ne_true]

end Observe

section Count

variable {s : SourceSequenceState} {g : List ℕ} {seq : UInt64}

/-- The tracker stands at the highest number of the stretch `g`. -/
structure At (g : List ℕ) (s : SourceSequenceState) : Prop where
  seen : s.seen = true
  stretch : g ≠ []
  last : s.lastSequence.toNat = high g

/-- One observation: it starts over, or it adds what it skips. -/
theorem At.step (here : At g s) (low : seq.toNat + 1000 < 2 ^ 64) (lowLast : s.lastSequence.toNat + 1000 < 2 ^ 64) :
    if restarts (high g) seq.toNat then
      At [seq.toNat] (observeState s seq).1 ∧ (observeState s seq).1.missing = s.missing
    else At (g ++ [seq.toNat]) (observeState s seq).1 ∧
      (observeState s seq).1.missing = s.missing + UInt64.ofNat (seq.toNat - high g - 1) := by
  have ne : g ++ [seq.toNat] ≠ [] := by simp
  have top := high_snoc g seq.toNat
  have last := here.last
  have forward : high g < seq.toNat → restarts (high g) seq.toNat = false := fun lt => decide_eq_false (by omega)
  rcases Nat.lt_trichotomy seq.toNat (high g + 1) with back | eq | lt
  · rw [observeState_back here.seen low (by omega) (by omega), last]
    have nothing : UInt64.ofNat (seq.toNat - high g - 1) = 0 := by
      rw [show seq.toNat - high g - 1 = 0 by omega]; rfl
    split
    · exact ⟨⟨here.seen, by simp, by simp⟩, rfl⟩
    · refine ⟨⟨here.seen, ne, ?_⟩, by simp [nothing]⟩
      show s.lastSequence.toNat = _
      omega
  · rw [observeState_inOrder here.seen (by omega) (by omega), forward (by omega), if_neg Bool.false_ne_true]
    refine ⟨⟨here.seen, ne, ?_⟩, ?_⟩
    · show seq.toNat = _
      omega
    · simp [show seq.toNat - high g - 1 = 0 by omega]
  · rw [observeState_gap here.seen (by omega) (by omega), forward (by omega), if_neg Bool.false_ne_true, last]
    refine ⟨⟨here.seen, ne, ?_⟩, rfl⟩
    show seq.toNat = _
    omega

/-- From a stretch on, the count grows by what the rest of the numbers skips. -/
theorem At.run (here : At g s) (seqs : List UInt64) (low : ∀ seq ∈ seqs, seq.toNat + 1000 < 2 ^ 64)
    (lowLast : s.lastSequence.toNat + 1000 < 2 ^ 64) :
    (seqs.foldl (fun s seq => (observeState s seq).1) s).missing + UInt64.ofNat (skipped g).card =
      s.missing + UInt64.ofNat (total (splitFrom restarts g (seqs.map UInt64.toNat))) := by
  induction seqs generalizing g s with
  | nil => simp [splitFrom, total]
  | cons seq seqs ih =>
    have lowSeq := low seq List.mem_cons_self
    have step := here.step lowSeq lowLast
    rw [List.foldl_cons, List.map_cons, splitFrom]
    have lowRest : ∀ seq ∈ seqs, seq.toNat + 1000 < 2 ^ 64 := fun q hq => low q (List.mem_cons_of_mem _ hq)
    split
    next reset =>
      rw [if_pos reset] at step
      obtain ⟨next, same⟩ := step
      have rest := ih next lowRest (by rw [next.last, high_singleton]; exact lowSeq)
      rw [skipped_singleton, Finset.card_empty, same] at rest
      have rest : (seqs.foldl (fun s seq => (observeState s seq).1) (observeState s seq).1).missing =
          s.missing + UInt64.ofNat (total (splitFrom restarts [seq.toNat] (seqs.map UInt64.toNat))) := by
        simpa using rest
      rw [rest]
      simp only [total, List.map_cons, List.sum_cons, UInt64.ofNat_add]
      ac_rfl
    next go =>
      rw [if_neg go] at step
      obtain ⟨next, more⟩ := step
      have lowNext : (observeState s seq).1.lastSequence.toNat + 1000 < 2 ^ 64 := by
        rw [next.last, high_snoc, ← here.last]; omega
      have rest := ih next lowRest lowNext
      rw [card_skipped_snoc here.stretch, more, UInt64.ofNat_add, ← add_assoc] at rest
      have cancel : ∀ a b c d x : UInt64, a + b + x = c + x + d → a + b = c + d := by
        intro a b c d x h
        apply add_right_cancel (b := x)
        rw [h]
        ac_rfl
      exact cancel _ _ _ _ _ rest

/-- What the tracker adds up for a source. -/
theorem missing_eq (calls : List (UInt32 × UInt64)) (k : UInt32)
    (low : ∀ seq ∈ observed k calls, seq.toNat + 1000 < 2 ^ 64) :
    ((observeAll {} calls).stateOf k).missing =
      UInt64.ofNat (skips restarts ((observed k calls).map UInt64.toNat)) := by
  rw [stateOf_observeAll]
  cases hs : observed k calls with
  | nil => rfl
  | cons seq seqs =>
    rw [hs] at low
    have lowSeq := low seq List.mem_cons_self
    have here : At [seq.toNat] (observeState (stateOf {} k) seq).1 :=
      ⟨rfl, by simp, by simp [observeState, stateOf]⟩
    have run := here.run seqs (fun q hq => low q (List.mem_cons_of_mem _ hq)) (by rw [here.last]; simpa using lowSeq)
    rw [skipped_singleton, Finset.card_empty] at run
    simpa [observeState, stateOf, skips, stretches] using run

end Count

/-- The missing count of a source whose numbers stay clear of 2^64 is the number of
sequence numbers skipped, which is never less than what never arrived. As long as no
late arrival is taken for a restart, it exceeds that by the numbers that arrived late. -/
theorem missing_counts_skipped (calls : List (UInt32 × UInt64)) (k : UInt32)
    (low : ∀ seq ∈ observed k calls, seq.toNat + 1000 < 2 ^ 64) :
    ((observeAll {} calls).stateOf k).missing =
        UInt64.ofNat (skips restarts ((observed k calls).map UInt64.toNat)) ∧
      (never ((observed k calls).map UInt64.toNat)).card ≤ skips restarts ((observed k calls).map UInt64.toNat) ∧
      (Steady restarts ((observed k calls).map UInt64.toNat) →
        ((observeAll {} calls).stateOf k).missing.toNat =
            (never ((observed k calls).map UInt64.toNat)).card + (late ((observed k calls).map UInt64.toNat)).card ∧
          (((observeAll {} calls).stateOf k).missing.toNat = (never ((observed k calls).map UInt64.toNat)).card ↔
            late ((observed k calls).map UInt64.toNat) = ∅)) := by
  have total := missing_eq calls k low
  generalize hxs : (observed k calls).map UInt64.toNat = xs at total ⊢
  refine ⟨total, never_le_skips (fun h x reset => (of_decide_eq_true reset).1.le) xs, fun steady => ?_⟩
  have bound : high xs < 2 ^ 64 := by
    rcases eq_or_ne xs [] with rfl | ne
    · simp [high]
    · have mem := high_mem ne
      rw [← hxs] at mem
      obtain ⟨seq, _, eq⟩ := List.mem_map.1 mem
      rw [← hxs, ← eq]
      exact seq.toNat_lt
  have count : ((observeAll {} calls).stateOf k).missing.toNat = (never xs).card + (late xs).card := by
    have le := card_skipped_le xs
    rw [total, skips_steady steady, ← card_skipped, UInt64.toNat_ofNat_of_lt' (le.trans_lt bound)]
  refine ⟨count, ?_⟩
  rw [count, Nat.add_eq_left, Finset.card_eq_zero]

/-- Two sources: of the numbers of source 7 between 0 and 4, 1 arrives late and 3 never. -/
def lossyCalls : List (UInt32 × UInt64) := [(7, 0), (7, 2), (9, 5), (7, 1), (7, 4)]

theorem missing_counts_skipped_lossy :
    ((observeAll {} lossyCalls).stateOf 7).missing = UInt64.ofNat (skips restarts [0, 2, 1, 4]) ∧
      (never [0, 2, 1, 4]).card ≤ skips restarts [0, 2, 1, 4] ∧
      (Steady restarts [0, 2, 1, 4] →
        ((observeAll {} lossyCalls).stateOf 7).missing.toNat = (never [0, 2, 1, 4]).card + (late [0, 2, 1, 4]).card ∧
          (((observeAll {} lossyCalls).stateOf 7).missing.toNat = (never [0, 2, 1, 4]).card ↔ late [0, 2, 1, 4] = ∅)) :=
  missing_counts_skipped lossyCalls 7 (by simp [observed, lossyCalls])

example : never [0, 2, 1, 4] = {3} ∧ late [0, 2, 1, 4] = {1} := by decide

/-- It is false that the count is what never arrived: 1 arrives after 2 and is counted. -/
theorem late_arrival_counted :
    ¬ ∀ (calls : List (UInt32 × UInt64)) (k : UInt32), (∀ seq ∈ observed k calls, seq.toNat + 1000 < 2 ^ 64) →
      ((observeAll {} calls).stateOf k).missing.toNat = (never ((observed k calls).map UInt64.toNat)).card := by
  intro always
  have eq := always [(7, 0), (7, 2), (7, 1)] 7 (by simp [observed])
  have counted : ((observeAll {} [(7, 0), (7, 2), (7, 1)]).stateOf 7).missing.toNat = 1 := by decide
  have arrived : (never ((observed 7 [(7, 0), (7, 2), (7, 1)]).map UInt64.toNat)).card = 0 := by decide
  rw [counted, arrived] at eq
  cases eq

end SequenceTracker

end IpcRelay
