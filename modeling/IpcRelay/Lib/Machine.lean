import Mathlib

/-!
# Deterministic machines that may fault

A machine is a step function from a state and an event to the next state and
an observation, or to a fault. `run` folds it over a list of events. `Trace`
is the same run read backwards, one event at the end, with the history of
events and observations as its index: invariants that relate a state to what
happened before are proved on it by one induction (`Trace.invariant`,
`Trace.history`). `run_total` is the rule for runs that never fault.
`Throughout` says that each step of a run meets a condition, `collect` lists
what its steps contribute.
-/

namespace Machine

/-- One step: the next state and what is observed, or a fault. -/
abbrev StepFn (σ ε ω φ : Type) := σ → ε → Except φ (σ × ω)

variable {σ τ ε ω φ : Type}

/-- The run of `step` over a list of events, with the observation of each. -/
def run (step : StepFn σ ε ω φ) (s : σ) : List ε → Except φ (σ × List ω)
  | [] => .ok (s, [])
  | e :: es => do
      let (s', o) ← step s e
      let (t, os) ← run step s' es
      .ok (t, o :: os)

/-- `h` is the history (events with their observations) of a run from `s₀` to the state. -/
inductive Trace (step : StepFn σ ε ω φ) (s₀ : σ) : List (ε × ω) → σ → Prop where
  | nil : Trace step s₀ [] s₀
  | snoc {h : List (ε × ω)} {s s' : σ} {e : ε} {o : ω} :
      Trace step s₀ h s → step s e = .ok (s', o) → Trace step s₀ (h ++ [(e, o)]) s'

variable {step : StepFn σ ε ω φ}

theorem bind_ok {α β : Type} {x : Except φ α} {f : α → Except φ β} {b : β} :
    (x >>= f) = .ok b ↔ ∃ a, x = .ok a ∧ f a = .ok b := by
  cases x <;> simp [bind, Except.bind]

theorem ok_bind {α β : Type} (a : α) (f : α → Except φ β) : (Except.ok a >>= f) = f a := rfl

@[simp] theorem run_nil (s : σ) : run step s [] = .ok (s, []) := rfl

theorem run_cons {s t : σ} {e : ε} {es : List ε} {os : List ω} :
    run step s (e :: es) = .ok (t, os) ↔
      ∃ s' o os', step s e = .ok (s', o) ∧ run step s' es = .ok (t, os') ∧ os = o :: os' := by
  rw [run, bind_ok]
  constructor
  · rintro ⟨⟨s', o⟩, h, h'⟩
    obtain ⟨⟨t', os'⟩, h₁, h₂⟩ := bind_ok.1 h'
    cases h₂
    exact ⟨s', o, os', h, h₁, rfl⟩
  · rintro ⟨s', o, os', h, h', rfl⟩
    exact ⟨(s', o), h, bind_ok.2 ⟨(t, os'), h', rfl⟩⟩

theorem run_length {s t : σ} {es : List ε} {os : List ω} (h : run step s es = .ok (t, os)) :
    os.length = es.length := by
  induction es generalizing s os with
  | nil => cases h; rfl
  | cons e es ih =>
    obtain ⟨s', o, os', _, hrest, rfl⟩ := run_cons.1 h
    simp [ih hrest]

theorem run_append {s t : σ} {es es' : List ε} {os : List ω} :
    run step s (es ++ es') = .ok (t, os) ↔
      ∃ m os₁ os₂, run step s es = .ok (m, os₁) ∧ run step m es' = .ok (t, os₂) ∧ os = os₁ ++ os₂ := by
  induction es generalizing s os with
  | nil =>
    constructor
    · intro h; exact ⟨s, [], os, rfl, h, rfl⟩
    · rintro ⟨m, os₁, os₂, h, h', rfl⟩; cases h; exact h'
  | cons e es ih =>
    rw [List.cons_append, run_cons]
    constructor
    · rintro ⟨s', o, os', h, h', rfl⟩
      obtain ⟨m, os₁, os₂, h₁, h₂, rfl⟩ := ih.1 h'
      exact ⟨m, o :: os₁, os₂, run_cons.2 ⟨s', o, os₁, h, h₁, rfl⟩, h₂, rfl⟩
    · rintro ⟨m, os₁, os₂, h, h₂, rfl⟩
      obtain ⟨s', o, os', head, h₁, rfl⟩ := run_cons.1 h
      exact ⟨s', o, os' ++ os₂, head, ih.2 ⟨m, os', os₂, h₁, h₂, rfl⟩, rfl⟩

theorem run_snoc {s t : σ} {es : List ε} {e : ε} {os : List ω} :
    run step s (es ++ [e]) = .ok (t, os) ↔
      ∃ m os₁ o, run step s es = .ok (m, os₁) ∧ step m e = .ok (t, o) ∧ os = os₁ ++ [o] := by
  rw [run_append]
  constructor
  · rintro ⟨m, os₁, os₂, h, h', rfl⟩
    obtain ⟨s', o, os', h₁, h₂, rfl⟩ := run_cons.1 h'
    cases h₂
    exact ⟨m, os₁, o, h, h₁, rfl⟩
  · rintro ⟨m, os₁, o, h, h', rfl⟩
    exact ⟨m, os₁, [o], h, run_cons.2 ⟨t, o, [], h', rfl, rfl⟩, rfl⟩

/-- A finished run, with its history. -/
theorem Trace.of_run {s t : σ} {es : List ε} {os : List ω} (h : run step s es = .ok (t, os)) :
    Trace step s (es.zip os) t := by
  induction es using List.reverseRecOn generalizing t os with
  | nil => cases h; exact .nil
  | append_singleton es e ih =>
    obtain ⟨m, os₁, o, h₁, h₂, rfl⟩ := run_snoc.1 h
    rw [List.zip_append (run_length h₁).symm]
    exact (ih h₁).snoc h₂

theorem Trace.run_eq {s t : σ} {h : List (ε × ω)} (tr : Trace step s h t) :
    run step s (h.map Prod.fst) = .ok (t, h.map Prod.snd) := by
  induction tr with
  | nil => rfl
  | snoc _ hs ih =>
    rw [List.map_append, List.map_append]
    exact run_snoc.2 ⟨_, _, _, ih, hs, rfl⟩

/-- A history splits where its events do. -/
theorem Trace.split {s t : σ} {h h' : List (ε × ω)} (tr : Trace step s (h ++ h') t) :
    ∃ m, Trace step s h m ∧ Trace step m h' t := by
  induction h' using List.reverseRecOn generalizing t with
  | nil => exact ⟨t, by simpa using tr, .nil⟩
  | append_singleton h' x ih =>
    rw [← List.append_assoc] at tr
    generalize hh : (h ++ h') ++ [x] = g at tr
    cases tr with
    | nil => simp at hh
    | @snoc k u _ e o tr' hs =>
      obtain ⟨rfl, hx⟩ := List.append_inj' hh rfl
      obtain rfl : x = (e, o) := by simpa using hx
      obtain ⟨m, h₁, h₂⟩ := ih tr'
      exact ⟨m, h₁, h₂.snoc hs⟩

/-- One step of a finished run, between the history before it and the one after it. -/
theorem Trace.at_index {s t : σ} {h : List (ε × ω)} {i : Nat} {e : ε} {o : ω} (tr : Trace step s h t)
    (hi : h[i]? = some (e, o)) :
    ∃ u u', Trace step s (h.take i) u ∧ step u e = .ok (u', o) ∧ Trace step u' (h.drop (i + 1)) t ∧
      h.take (i + 1) = h.take i ++ [(e, o)] := by
  have lt : i < h.length := by
    by_contra out
    rw [List.getElem?_eq_none (by omega)] at hi
    cases hi
  have split : h = h.take i ++ (e, o) :: h.drop (i + 1) := by
    have here : h[i] = (e, o) := by rw [List.getElem?_eq_getElem lt] at hi; exact Option.some.inj hi
    rw [← here, List.getElem_cons_drop, List.take_append_drop]
  rw [split] at tr
  obtain ⟨u, before, rest⟩ := tr.split
  obtain ⟨u', one, after⟩ := Trace.split (h := [(e, o)]) rest
  have here := one.run_eq
  obtain ⟨m, o', os', hs, hnil, eq⟩ := run_cons.1 here
  cases hnil
  cases eq
  refine ⟨u, u', before, hs, after, ?_⟩
  rw [List.take_add_one, hi]
  rfl

/-- A finished run has been through the state before each of its steps. -/
theorem run_at {s t : σ} {es : List ε} {os : List ω} {i : Nat} {e : ε} {o : ω} (h : run step s es = .ok (t, os))
    (hi : (es.zip os)[i]? = some (e, o)) :
    ∃ u u', run step s (es.take i) = .ok (u, os.take i) ∧ step u e = .ok (u', o) ∧
      Trace step s ((es.zip os).take i) u ∧ (es.zip os).take (i + 1) = (es.zip os).take i ++ [(e, o)] := by
  obtain ⟨u, u', before, hs, _, split⟩ := (Trace.of_run h).at_index hi
  have ran := before.run_eq
  have len := run_length h
  rw [List.map_take, List.map_take, List.map_fst_zip (by omega), List.map_snd_zip (by omega)] at ran
  exact ⟨u, u', ran, hs, before, split⟩

/-- Where something holds on the way and not at the end, a step between them ends it. -/
theorem run_breaks {P : σ → Prop} {s w : σ} {es : List ε} {ws : List ω} {i : Nat}
    (mid : run step s (es.take i) = .ok (w, ws)) (first : P w) :
    ∀ {u : σ} {os : List ω}, run step s es = .ok (u, os) → ¬ P u → ∃ m e v vs v' o, i ≤ m ∧ es[m]? = some e ∧
      run step s (es.take m) = .ok (v, vs) ∧ P v ∧ step v e = .ok (v', o) ∧ ¬ P v' := by
  induction es using List.reverseRecOn with
  | nil =>
    intro u os h last
    rw [List.take_nil] at mid
    rw [mid] at h
    cases h
    exact absurd first last
  | append_singleton es e ih =>
    intro u os h last
    obtain ⟨v, vs, o, before, one, rfl⟩ := run_snoc.1 h
    rcases Nat.lt_or_ge es.length i with all | part
    · rw [List.take_of_length_le (by simpa using all)] at mid
      rw [mid] at h
      cases h
      exact absurd first last
    · by_cases holds : P v
      · exact ⟨es.length, e, v, vs, u, o, part, by simp, by simpa using before, holds, one, last⟩
      · rw [List.take_append_of_le_length part] at mid
        obtain ⟨m, e', w', ws', v', o', le, here, ran, was, step', broken⟩ := ih mid before holds
        have lt : m < es.length := (List.getElem?_eq_some_iff.1 here).1
        refine ⟨m, e', w', ws', v', o', le, ?_, ?_, was, step', broken⟩
        · rw [List.getElem?_append_left lt]
          exact here
        · rw [List.take_append_of_le_length lt.le]
          exact ran

/-- What a step keeps, a run keeps. -/
theorem Trace.invariant {I : σ → Prop} {s t : σ} {h : List (ε × ω)} (tr : Trace step s h t)
    (init : I s) (keep : ∀ u e u' o, I u → step u e = .ok (u', o) → I u') : I t := by
  induction tr with
  | nil => exact init
  | snoc _ hs ih => exact keep _ _ _ _ ih hs

/-- The same for a relation between the history and the state. -/
theorem Trace.history {I : List (ε × ω) → σ → Prop} {s t : σ} {h : List (ε × ω)}
    (tr : Trace step s h t) (init : I [] s)
    (keep : ∀ g u e u' o, I g u → step u e = .ok (u', o) → I (g ++ [(e, o)]) u') : I h t := by
  induction tr with
  | nil => exact init
  | snoc _ hs ih => exact keep _ _ _ _ _ ih hs

/-- What a run shows, if it does not fault. -/
def observations (step : StepFn σ ε ω φ) (s : σ) (es : List ε) : Option (List ω) :=
  (run step s es).toOption.map Prod.snd

theorem observations_of_run {s t : σ} {es : List ε} {os os' : List ω} (h : run step s es = .ok (t, os))
    (h' : observations step s es = some os') : os = os' := by
  simpa [observations, h, Except.toOption] using h'

theorem run_of_observations {s : σ} {es : List ε} {os : List ω} (h : observations step s es = some os) :
    ∃ t, run step s es = .ok (t, os) := by
  unfold observations at h
  cases hr : run step s es with
  | error f => simp [hr, Except.toOption] at h
  | ok r =>
    obtain ⟨t, os'⟩ := r
    simp only [hr, Except.toOption, Option.map_some, Option.some.injEq] at h
    exact ⟨t, by rw [h]⟩

/-- A machine whose steps do not fault inside an invariant has a run over every list of
events, here of events that meet a condition. -/
theorem run_total_on {I : σ → Prop} {P : ε → Prop}
    (safe : ∀ u e, I u → P e → ∃ u' o, step u e = .ok (u', o) ∧ I u') :
    ∀ (es : List ε) {s : σ}, I s → (∀ e ∈ es, P e) → ∃ t os, run step s es = .ok (t, os) ∧ I t := by
  intro es
  induction es with
  | nil => exact fun {s} hs _ => ⟨s, [], rfl, hs⟩
  | cons e es ih =>
    intro s hs hP
    obtain ⟨s', o, h, hs'⟩ := safe s e hs (hP e List.mem_cons_self)
    obtain ⟨t, os, h', ht⟩ := ih hs' fun e' he' => hP e' (List.mem_cons_of_mem _ he')
    exact ⟨t, o :: os, run_cons.2 ⟨s', o, os, h, h', rfl⟩, ht⟩

theorem run_total {I : σ → Prop} (safe : ∀ u e, I u → ∃ u' o, step u e = .ok (u', o) ∧ I u') (es : List ε) {s : σ}
    (hs : I s) : ∃ t os, run step s es = .ok (t, os) ∧ I t :=
  run_total_on (P := fun _ => True) (fun u e hu _ => safe u e hu) es hs fun _ _ => trivial

/-- Every step of the run over `es` is taken in a state and on an event that satisfy `P`. -/
def Throughout (step : StepFn σ ε ω φ) (s : σ) (P : σ → ε → Prop) (es : List ε) : Prop :=
  ∀ i e u us, es[i]? = some e → run step s (es.take i) = .ok (u, us) → P u e

theorem throughout_nil {P : σ → ε → Prop} {s : σ} : Throughout step s P [] := by
  intro i e u us hi
  simp at hi

theorem throughout_snoc {P : σ → ε → Prop} {s u : σ} {es : List ε} {us : List ω} {e : ε}
    (ran : run step s es = .ok (u, us)) :
    Throughout step s P (es ++ [e]) ↔ Throughout step s P es ∧ P u e := by
  constructor
  · intro all
    refine ⟨?_, all es.length e u us (by simp) (by simpa using ran)⟩
    intro i d v vs hi hv
    have lt : i < es.length := (List.getElem?_eq_some_iff.1 hi).1
    apply all i d v vs
    · rw [List.getElem?_append_left lt]; exact hi
    · rw [List.take_append_of_le_length lt.le]; exact hv
  · rintro ⟨before, last⟩ i d v vs hi hv
    rcases Nat.lt_or_ge i es.length with lt | ge
    · rw [List.getElem?_append_left lt] at hi
      rw [List.take_append_of_le_length lt.le] at hv
      exact before i d v vs hi hv
    · rw [List.getElem?_append_right ge] at hi
      obtain ⟨at_end, rfl⟩ := List.getElem?_eq_some_iff.1 hi
      have here : i = es.length := by
        have : i - es.length < 1 := at_end
        omega
      subst here
      simp only [List.take_left] at hv
      rw [ran] at hv
      cases hv
      simpa using last

/-- What the steps of a run contribute, in order. -/
def collect {α : Type} (step : StepFn σ ε ω φ) (f : σ → ε → ω → List α) : σ → List ε → List α
  | _, [] => []
  | s, e :: es =>
    match step s e with
    | .ok (s', o) => f s e o ++ collect step f s' es
    | .error _ => []

theorem collect_cons {α : Type} {f : σ → ε → ω → List α} {s s' : σ} {e : ε} {o : ω} (one : step s e = .ok (s', o))
    (es : List ε) : collect step f s (e :: es) = f s e o ++ collect step f s' es := by
  simp [collect, one]

/-- Whatever was contributed, a step contributed it. -/
theorem mem_collect {α : Type} {f : σ → ε → ω → List α} {s : σ} {es : List ε} {a : α}
    (mem : a ∈ collect step f s es) : ∃ u e o, e ∈ es ∧ a ∈ f u e o := by
  induction es generalizing s with
  | nil => cases mem
  | cons e es ih =>
    cases one : step s e with
    | error => simp [collect, one] at mem
    | ok next =>
      obtain ⟨s', o⟩ := next
      rw [collect_cons one] at mem
      rcases List.mem_append.1 mem with here | later
      · exact ⟨s, e, o, List.mem_cons_self, here⟩
      · obtain ⟨u, d, o', mem', from_⟩ := ih later
        exact ⟨u, d, o', List.mem_cons_of_mem _ mem', from_⟩

theorem collect_snoc {α : Type} {f : σ → ε → ω → List α} {s u t : σ} {es : List ε} {us : List ω} {e : ε} {o : ω}
    (ran : run step s es = .ok (u, us)) (one : step u e = .ok (t, o)) :
    collect step f s (es ++ [e]) = collect step f s es ++ f u e o := by
  induction es generalizing s us with
  | nil =>
    cases ran
    simp [collect, one]
  | cons d es ih =>
    obtain ⟨s', o', os', first, rest, rfl⟩ := run_cons.1 ran
    simp only [List.cons_append, collect, first, ih rest, List.append_assoc]

end Machine
