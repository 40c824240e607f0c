import IpcRelay.Receiver.SequenceTracker

/-!
# The documented classification of sequence numbers

`documented` is the rule of the wire format document over unbounded numbers.
`observe` adds 1 to the last number and 1000 to the new one in 64 bits, so it
follows the rule except where one of the two sums `Wraps`
(`follows_iff`). A run in which none does is the run of the rule, source by
source (`classification_exact`).
-/

namespace IpcRelay

namespace SequenceTracker

/-- The rule: from the last number of the source, if there is one, and the new
number to the number it stands at, the outcome, and how many are missing. -/
def documented : Option ℕ → ℕ → ℕ × Outcome × ℕ
  | none, x => (x, .first, 0)
  | some last, x =>
    if x = last + 1 then (x, .inOrder, 0)
    else if x > last + 1 then (x, .gap, x - last - 1)
    else (if last - x > 1000 ∨ x = 0 then x else last, .outOfOrder, 0)

/-- The rule on a stream of numbers: where it ends up, and the outcome of each. -/
def documentedRun : Option ℕ → List ℕ → Option ℕ × List (Outcome × ℕ)
  | last, [] => (last, [])
  | last, x :: xs =>
    let r := documented last x
    let rest := documentedRun (some r.1) xs
    (rest.1, r.2 :: rest.2)

end SequenceTracker

/-- The number a source stands at. -/
def SourceSequenceState.last (s : SourceSequenceState) : Option ℕ := if s.seen then some s.lastSequence.toNat else none

namespace SequenceTracker

/-- The observation is classified, counted and remembered by the rule. -/
structure Follows (s s' : SourceSequenceState) (seq : UInt64) (outcome : Outcome) (missing : UInt64) : Prop where
  last : s'.last = some (documented s.last seq.toNat).1
  verdict : outcome = (documented s.last seq.toNat).2.1
  skipped : missing.toNat = (documented s.last seq.toNat).2.2
  total : s'.missing = s.missing + missing
  gaps : s'.gapEvents = s.gapEvents + if outcome = .gap then 1 else 0
  disorder : s'.outOfOrder = s.outOfOrder + if outcome = .outOfOrder then 1 else 0

/-- A call of `observe` follows the rule for its source and leaves the others alone. -/
def Conforms (t : SequenceTracker) (k : UInt32) (seq : UInt64) : Prop :=
  Follows (t.stateOf k) ((t.observe k seq).1.stateOf k) seq (t.observe k seq).2.1 (t.observe k seq).2.2 ∧
    ∀ j, j ≠ k → (t.observe k seq).1.sources.lookup j = t.sources.lookup j

/-- A sum of `observe` leaves 64 bits and shows: the last number is the highest one, or
the number falls back from a higher one within the last 1000. -/
def Wraps (s : SourceSequenceState) (seq : UInt64) : Prop :=
  s.seen = true ∧ (s.lastSequence.toNat + 1 = 2 ^ 64 ∨
    (2 ^ 64 ≤ seq.toNat + 1000 ∧ seq.toNat < s.lastSequence.toNat))

/-- What the calls for one source return. -/
def resultsOf (k : UInt32) : SequenceTracker → List (UInt32 × UInt64) → List (Outcome × ℕ)
  | _, [] => []
  | t, c :: calls =>
    let r := t.observe c.1 c.2
    if c.1 = k then (r.2.1, r.2.2.toNat) :: resultsOf k r.1 calls else resultsOf k r.1 calls

section Step

variable {s : SourceSequenceState} {seq : UInt64}

/-- After the highest number every number is in order or a gap. -/
theorem observeState_top (seen : s.seen = true) (top : s.lastSequence.toNat + 1 = 2 ^ 64) :
    (observeState s seq).2.1 ≠ .outOfOrder := by
  have expected : s.lastSequence + 1 = 0 := by
    apply UInt64.toNat_inj.1
    rw [UInt64.toNat_add, UInt64.toNat_one, top]
    rfl
  rw [observeState, if_neg (not_not.2 seen), expected]
  dsimp only
  by_cases zero : seq = 0
  · rw [if_pos zero]
    exact Outcome.noConfusion
  · have above : seq > 0 := UInt64.pos_iff_ne_zero.2 zero
    rw [if_neg zero, if_pos above]
    exact Outcome.noConfusion

/-- Within 1000 of the top, a number that is not above the last one is always resynchronised to. -/
theorem observeState_wrapped (seen : s.seen = true) (lowLast : s.lastSequence.toNat + 1 < 2 ^ 64)
    (high : 2 ^ 64 ≤ seq.toNat + 1000) (le : seq.toNat ≤ s.lastSequence.toNat) :
    observeState s seq = ({ s with outOfOrder := s.outOfOrder + 1, lastSequence := seq }, .outOfOrder, 0) := by
  have expected := expected_toNat lowLast
  have lt := seq.toNat_lt
  have off : seq ≠ s.lastSequence + 1 := by
    intro h
    have := congrArg UInt64.toNat h
    omega
  have below : ¬ seq > s.lastSequence + 1 := by
    intro h
    have := UInt64.lt_iff_toNat_lt.1 h
    omega
  have far : (seq + 1000).toNat = seq.toNat + 1000 - 2 ^ 64 := by
    rw [UInt64.toNat_add]
    show (seq.toNat + 1000) % 2 ^ 64 = _
    omega
  have jump : seq + 1000 < s.lastSequence := by
    rw [UInt64.lt_iff_toNat_lt, far]
    omega
  rw [observeState, if_neg (not_not.2 seen)]
  dsimp only
  rw [if_neg off, if_neg below, if_pos (.inl jump)]

theorem last_of_seen (seen : s.seen = true) : s.last = some s.lastSequence.toNat := if_pos seen

/-- The rule followed, with what it says. -/
theorem follows_of {s' : SourceSequenceState} {outcome : Outcome} {missing : UInt64} {x n : ℕ}
    (rule : documented s.last seq.toNat = (x, outcome, n)) (last : s'.last = some x) (skipped : missing.toNat = n)
    (total : s'.missing = s.missing + missing) (gaps : s'.gapEvents = s.gapEvents + if outcome = .gap then 1 else 0)
    (disorder : s'.outOfOrder = s.outOfOrder + if outcome = .outOfOrder then 1 else 0) :
    Follows s s' seq outcome missing := by
  constructor
  · rw [rule, last]
  · rw [rule]
  · rw [rule, skipped]
  · exact total
  · exact gaps
  · exact disorder

/-- What the rule says of a number that is not above the last one. -/
theorem documented_back {last x : ℕ} (le : x ≤ last) :
    documented (some last) x = (if last - x > 1000 ∨ x = 0 then x else last, .outOfOrder, 0) := by
  rw [documented, if_neg (by omega), if_neg (by omega)]

/-- `observe` follows the rule exactly where neither of its sums wraps. -/
theorem follows_iff (s : SourceSequenceState) (seq : UInt64) :
    Follows s (observeState s seq).1 seq (observeState s seq).2.1 (observeState s seq).2.2 ↔ ¬ Wraps s seq := by
  have lt := seq.toNat_lt
  cases seen : s.seen with
  | false =>
    have nothing : s.last = none := if_neg (by rw [seen]; exact Bool.false_ne_true)
    refine iff_of_true ?_ fun wraps => Bool.false_ne_true (seen.symm.trans wraps.1)
    rw [observeState_first seen]
    exact follows_of (by rw [nothing]; rfl) rfl rfl (by simp) rfl rfl
  | true =>
    have ltLast := s.lastSequence.toNat_lt
    have stands := last_of_seen seen
    by_cases top : s.lastSequence.toNat + 1 = 2 ^ 64
    · refine iff_of_false ?_ fun fine => fine ⟨seen, .inl top⟩
      intro follows
      refine observeState_top seen top (?_ : (observeState s seq).2.1 = _)
      rw [follows.verdict, stands, documented_back (by omega)]
    have lowLast : s.lastSequence.toNat + 1 < 2 ^ 64 := by omega
    -- wherever the source moves on, it stands at the new number
    have moved (gaps disorder : ℕ) (missing : UInt64) :
        (SourceSequenceState.mk s.seen seq gaps missing disorder).last = some seq.toNat := if_pos seen
    rcases Nat.lt_trichotomy seq.toNat (s.lastSequence.toNat + 1) with back | next | skip
    · have rule := documented_back (Nat.lt_succ_iff.1 back)
      rw [← stands] at rule
      by_cases low : seq.toNat + 1000 < 2 ^ 64
      · refine iff_of_true ?_ fun wraps => by rcases wraps.2 with _ | ⟨_, _⟩ <;> omega
        rw [observeState_back seen low lowLast (by omega)]
        refine follows_of rule ?_ rfl (by simp) rfl rfl
        rw [last_of_seen (by exact seen)]
        simp only [restarts, decide_eq_true_eq, Option.some.injEq]
        split_ifs <;> omega
      · rw [observeState_wrapped seen lowLast (by omega) (by omega)]
        constructor
        · rintro follows ⟨-, wraps⟩
          have last := (moved _ _ _).symm.trans follows.last
          rw [rule, Option.some.injEq, if_neg (by omega)] at last
          omega
        · intro fine
          have same : seq.toNat = s.lastSequence.toNat := by
            by_contra ne
            exact fine ⟨seen, .inr ⟨by omega, by omega⟩⟩
          refine follows_of rule ((moved _ _ _).trans ?_) rfl (by simp) rfl rfl
          rw [same, ite_self]
    · have rule : documented s.last seq.toNat = (seq.toNat, .inOrder, 0) := by
        rw [stands, documented, if_pos next]
      refine iff_of_true ?_ fun wraps => by rcases wraps.2 with _ | ⟨_, _⟩ <;> omega
      rw [observeState_inOrder seen lowLast next]
      exact follows_of rule (moved _ _ _) rfl (by simp) rfl rfl
    · have rule : documented s.last seq.toNat = (seq.toNat, .gap, seq.toNat - s.lastSequence.toNat - 1) := by
        rw [stands, documented, if_neg (by omega), if_pos (by omega)]
      have fits : (UInt64.ofNat (seq.toNat - s.lastSequence.toNat - 1)).toNat = seq.toNat - s.lastSequence.toNat - 1 :=
        UInt64.toNat_ofNat_of_lt' (show _ < 2 ^ 64 by omega)
      refine iff_of_true ?_ fun wraps => by rcases wraps.2 with _ | ⟨_, _⟩ <;> omega
      rw [observeState_gap seen lowLast skip]
      exact follows_of rule (moved _ _ _) fits rfl rfl rfl

end Step

theorem observe_result (t : SequenceTracker) (k : UInt32) (seq : UInt64) :
    (t.observe k seq).2 = (observeState (t.stateOf k) seq).2 := rfl

/-- A call conforms to the rule exactly where neither of its sums wraps. -/
theorem conforms_iff (t : SequenceTracker) (k : UInt32) (seq : UInt64) :
    Conforms t k seq ↔ ¬ Wraps (t.stateOf k) seq := by
  have others : ∀ j, j ≠ k → (t.observe k seq).1.sources.lookup j = t.sources.lookup j :=
    fun j ne => AList.lookup_insert_ne ne
  rw [Conforms, and_iff_left others, observe_result, stateOf_observe, if_pos rfl]
  exact follows_iff (t.stateOf k) seq

theorem resultsOf_own {k : UInt32} {c : UInt32 × UInt64} (own : c.1 = k) (t : SequenceTracker)
    (calls : List (UInt32 × UInt64)) : resultsOf k t (c :: calls) =
      ((t.observe c.1 c.2).2.1, (t.observe c.1 c.2).2.2.toNat) :: resultsOf k (t.observe c.1 c.2).1 calls :=
  if_pos own

theorem resultsOf_other {k : UInt32} {c : UInt32 × UInt64} (other : c.1 ≠ k) (t : SequenceTracker)
    (calls : List (UInt32 × UInt64)) : resultsOf k t (c :: calls) = resultsOf k (t.observe c.1 c.2).1 calls :=
  if_neg other

/-- Calls that all conform are, for each source, the run of the rule on its numbers. -/
theorem documentedRun_eq (k : UInt32) (calls : List (UInt32 × UInt64)) (t : SequenceTracker)
    (fine : ∀ i c, calls[i]? = some c → Conforms (t.observeAll (calls.take i)) c.1 c.2) :
    documentedRun (t.stateOf k).last ((observed k calls).map UInt64.toNat) =
      (((t.observeAll calls).stateOf k).last, resultsOf k t calls) := by
  induction calls generalizing t with
  | nil => rfl
  | cons c calls ih =>
    have here := fine 0 c rfl
    have rest := ih (t.observe c.1 c.2).1 fun i d hd => fine (i + 1) d hd
    show _ = (((observeAll (t.observe c.1 c.2).1 calls).stateOf k).last, _)
    by_cases own : c.1 = k
    · subst own
      have follows : Follows (t.stateOf c.1) ((t.observe c.1 c.2).1.stateOf c.1) c.2 (t.observe c.1 c.2).2.1
          (t.observe c.1 c.2).2.2 := here.1
      have numbers : observed c.1 (c :: calls) = c.2 :: observed c.1 calls := by simp [observed]
      rw [follows.last] at rest
      have result : ((t.observe c.1 c.2).2.1, (t.observe c.1 c.2).2.2.toNat) =
          (documented (t.stateOf c.1).last c.2.toNat).2 := Prod.ext follows.verdict follows.skipped
      rw [numbers, List.map_cons, documentedRun, resultsOf_own rfl, result]
      exact congrArg (fun r => (r.1, (documented (t.stateOf c.1).last c.2.toNat).2 :: r.2)) rest
    · have numbers : observed k (c :: calls) = observed k calls := by simp [observed, own]
      rw [stateOf_observe, if_neg (Ne.symm own)] at rest
      rw [numbers, resultsOf_other own, rest]

/-- In every reachable state a call conforms to the documented rule exactly where
neither of its sums wraps. A run in which none does is the run of the rule. -/
theorem classification_exact (calls : List (UInt32 × UInt64)) :
    (∀ (k : UInt32) (seq : UInt64), Conforms (observeAll {} calls) k seq ↔
      ¬ Wraps ((observeAll {} calls).stateOf k) seq) ∧
    ((∀ i c, calls[i]? = some c → ¬ Wraps ((observeAll {} (calls.take i)).stateOf c.1) c.2) →
      ∀ k, documentedRun none ((observed k calls).map UInt64.toNat) =
        (((observeAll {} calls).stateOf k).last, resultsOf k {} calls)) := by
  refine ⟨fun k seq => conforms_iff _ k seq, ?_⟩
  intro quiet k
  exact documentedRun_eq k calls {} fun i c hc => (conforms_iff _ _ _).2 (quiet i c hc)

/-- Two numbers of source 7 with a gap between them. -/
theorem classification_exact_gap :
    documentedRun none ((observed 7 [(7, 5), (7, 8)]).map UInt64.toNat) =
      (((observeAll {} [(7, 5), (7, 8)]).stateOf 7).last, resultsOf 7 {} [(7, 5), (7, 8)]) := by
  refine (classification_exact [(7, 5), (7, 8)]).2 ?_ 7
  intro i c hc wraps
  match i with
  | 0 =>
    cases hc
    cases wraps.1
  | 1 =>
    cases hc
    have stands : ((observeAll {} [(7, 5)]).stateOf 7).lastSequence = 5 := by decide +kernel
    rcases wraps.2 with top | ⟨high, -⟩
    · have : ((observeAll {} [(7, 5)]).stateOf 7).lastSequence.toNat + 1 = 2 ^ 64 := top
      rw [stands] at this
      exact absurd this (by decide)
    · exact absurd high (by decide)
  | i + 2 => cases hc

/-- The highest number is observed first, then 5: the code reports a gap of 5. -/
theorem wrapped_number_counted :
    ¬ ∀ (calls : List (UInt32 × UInt64)) (k : UInt32) (seq : UInt64), Conforms (observeAll {} calls) k seq := by
  intro always
  have outcome := (always [(7, 18446744073709551615)] 7 5).1.verdict
  have reported : ((observeAll {} [(7, 18446744073709551615)]).observe 7 5).2.1 = .gap := by decide +kernel
  have stands : ((observeAll {} [(7, 18446744073709551615)]).stateOf 7).last = some 18446744073709551615 := by
    decide +kernel
  rw [reported, stands] at outcome
  cases outcome

end SequenceTracker

end IpcRelay
