import Mathlib

/-!
# Incremental consumers

A consumer takes items from the front of a buffer to which bytes are appended
as they come in. `step` handles one item, or finds that it needs more. It is
`Stable` if an answer other than "more" stands when more comes. Then handling
may stop where the buffer ends and go on with what comes next (`Drains.append`),
so what is done does not depend on the pieces a stream arrives in. A consumer
that takes the same items from the same buffers `simulates` another.
-/

namespace Incremental

variable {σ α ω : Type}

/-- From a state and a buffer: the next state, what is left of the buffer, and what was done. -/
abbrev Step (σ α ω : Type) := σ → List α → Option (σ × List α × List ω)

/-- More input does not change an answer. -/
def Stable (step : Step σ α ω) : Prop :=
  ∀ s b s' b' o more, step s b = some (s', b', o) → step s (b ++ more) = some (s', b' ++ more, o)

variable {step : Step σ α ω}

/-- Items are handled until more input is needed. -/
inductive Drains (step : Step σ α ω) : σ → List α → σ → List α → List ω → Prop where
  | more {s : σ} {b : List α} : step s b = none → Drains step s b s b []
  | item {s s' s'' : σ} {b b' b'' : List α} {o os : List ω} :
      step s b = some (s', b', o) → Drains step s' b' s'' b'' os → Drains step s b s'' b'' (o ++ os)

/-- Items are handled, as long as one likes. -/
inductive Takes (step : Step σ α ω) : σ → List α → σ → List α → List ω → Prop where
  | done {s : σ} {b : List α} : Takes step s b s b []
  | item {s s' s'' : σ} {b b' b'' : List α} {o os : List ω} :
      step s b = some (s', b', o) → Takes step s' b' s'' b'' os → Takes step s b s'' b'' (o ++ os)

/-- What each item keeps is kept. -/
theorem Takes.keeps {P : σ → Prop} (kept : ∀ s b s' b' o, step s b = some (s', b', o) → P s → P s') {s s' : σ}
    {b b' : List α} {os : List ω} (h : Takes step s b s' b' os) (hp : P s) : P s' := by
  induction h with
  | done => exact hp
  | item one _ ih => exact ih (kept _ _ _ _ _ one hp)

/-- What follows is handled from there. -/
theorem Takes.drains {s s' s'' : σ} {b b' b'' : List α} {os os' : List ω} (h : Takes step s b s' b' os)
    (h' : Drains step s' b' s'' b'' os') : Drains step s b s'' b'' (os ++ os') := by
  induction h with
  | done => exact h'
  | item one _ ih =>
    rw [List.append_assoc]
    exact .item one (ih h')

/-- At the end more input is needed. -/
theorem Drains.waits {s s' : σ} {b b' : List α} {os : List ω} (h : Drains step s b s' b' os) : step s' b' = none := by
  induction h with
  | more waits => exact waits
  | item _ _ ih => exact ih

/-- What each item keeps is kept. -/
theorem Drains.keeps {P : σ → Prop} (kept : ∀ s b s' b' o, step s b = some (s', b', o) → P s → P s') {s s' : σ}
    {b b' : List α} {os : List ω} (h : Drains step s b s' b' os) (hp : P s) : P s' := by
  induction h with
  | more _ => exact hp
  | item one _ ih => exact ih (kept _ _ _ _ _ one hp)

theorem Drains.functional {s s' s'' : σ} {b b' b'' : List α} {os os' : List ω} (h : Drains step s b s' b' os)
    (h' : Drains step s b s'' b'' os') : s' = s'' ∧ b' = b'' ∧ os = os' := by
  induction h generalizing os' with
  | more stops =>
    cases h' with
    | more _ => exact ⟨rfl, rfl, rfl⟩
    | item one _ =>
      rw [stops] at one
      cases one
  | item one _ ih =>
    cases h' with
    | more stops =>
      rw [stops] at one
      cases one
    | item one' rest' =>
      rw [one] at one'
      cases one'
      obtain ⟨rfl, rfl, rfl⟩ := ih rest'
      exact ⟨rfl, rfl, rfl⟩

/-- Where the handling stopped it goes on with what comes next. -/
theorem Drains.append (stable : Stable step) {s s' s'' : σ} {b b' b'' more : List α} {os os' : List ω}
    (h : Drains step s b s' b' os) (h' : Drains step s' (b' ++ more) s'' b'' os') :
    Drains step s (b ++ more) s'' b'' (os ++ os') := by
  induction h with
  | more _ => exact h'
  | item one _ ih =>
    rw [List.append_assoc]
    exact .item (stable _ _ _ _ _ _ one) (ih h')

/-- Items are handled, `n` of them at most. -/
def drain (step : Step σ α ω) : Nat → σ → List α → σ × List α × List ω
  | 0, s, b => (s, b, [])
  | n + 1, s, b =>
    match step s b with
    | none => (s, b, [])
    | some (s', b', o) =>
      let (s'', b'', os) := drain step n s' b'
      (s'', b'', o ++ os)

/-- An item takes some of the buffer, or is the last. -/
def Progresses (step : Step σ α ω) : Prop :=
  ∀ s b s' b' o, step s b = some (s', b', o) → b'.length < b.length ∨ ∀ b, step s' b = none

theorem drain_drains (progress : Progresses step) (n : Nat) (s : σ) (b : List α) (enough : b.length + 2 ≤ n) :
    Drains step s b (drain step n s b).1 (drain step n s b).2.1 (drain step n s b).2.2 := by
  induction n generalizing s b with
  | zero => omega
  | succ n ih =>
    unfold drain
    cases one : step s b with
    | none => exact .more one
    | some r =>
      obtain ⟨s', b', o⟩ := r
      refine .item one ?_
      rcases progress s b s' b' o one with shorter | last
      · exact ih s' b' (by omega)
      · obtain ⟨m, rfl⟩ : ∃ m, n = m + 1 := ⟨n - 1, by omega⟩
        have stops : drain step (m + 1) s' b' = (s', b', []) := by
          unfold drain
          rw [last b']
        change Drains step s' b' (drain step (m + 1) s' b').1 (drain step (m + 1) s' b').2.1
          (drain step (m + 1) s' b').2.2
        rw [stops]
        exact .more (last b')

/-- A consumer that takes the same items from the same buffer, in states that are related. -/
theorem Drains.simulates {τ ω' : Type} {step' : Step τ α ω'} {R : σ → τ → Prop} {Q : List ω → List ω' → Prop}
    (waits : ∀ s t b, R s t → step s b = none → step' t b = none)
    (takes : ∀ s t b s' b' o, R s t → step s b = some (s', b', o) →
      ∃ t' o', step' t b = some (t', b', o') ∧ R s' t' ∧ Q o o')
    (nil : Q [] []) (append : ∀ o os o' os', Q o o' → Q os os' → Q (o ++ os) (o' ++ os'))
    {s s' : σ} {t : τ} {b b' : List α} {os : List ω} (h : Drains step s b s' b' os) (start : R s t) :
    ∃ t' os', Drains step' t b t' b' os' ∧ R s' t' ∧ Q os os' := by
  induction h generalizing t with
  | more stops => exact ⟨t, [], .more (waits _ _ _ start stops), start, nil⟩
  | item one _ ih =>
    obtain ⟨t₁, o', one', next, first⟩ := takes _ _ _ _ _ _ start one
    obtain ⟨t', os', rest, last, others⟩ := ih next
    exact ⟨t', o' ++ os', .item one' rest, last, append _ _ _ _ first others⟩

end Incremental
