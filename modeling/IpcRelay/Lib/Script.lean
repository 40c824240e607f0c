import Mathlib.Data.List.Basic

/-!
# Scripts that throw

A part of a script changes the state and may throw. What it changed before it threw
stays changed, and the parts behind it do not run. `keeps` lemmas are about the
state that is left either way, `threw` lemmas say which part throws.
-/

/-- The state that is left, and whether the part threw. -/
abbrev Script (σ : Type) := σ → σ × Bool

namespace Script

variable {σ α : Type}

/-- A part that does not throw. -/
def just (f : σ → σ) : Script σ := fun s => (f s, false)

def andThen (f g : Script σ) : Script σ := fun s => if (f s).2 then f s else g (f s).1

/-- The loop over a list. -/
def each (f : α → Script σ) : List α → Script σ
  | [] => just id
  | a :: as => (f a).andThen (each f as)

variable {f g : Script σ} {s : σ}

@[simp] theorem just_apply (f : σ → σ) (s : σ) : just f s = (f s, false) := rfl

theorem andThen_threw (f g : Script σ) (s : σ) : (f.andThen g s).2 = ((f s).2 || (g (f s).1).2) := by
  unfold andThen
  split
  next threw => rw [threw, Bool.true_or]
  next passed => rw [eq_false_of_ne_true passed, Bool.false_or]

theorem andThen_passed (passed : (f s).2 = false) : f.andThen g s = g (f s).1 := by
  unfold andThen
  rw [passed]
  exact if_neg Bool.false_ne_true

theorem andThen_stopped (threw : (f s).2 = true) : f.andThen g s = f s := by
  unfold andThen
  exact if_pos threw

/-- What each part leaves of a state, both leave of it. -/
theorem andThen_keeps {R : σ → σ → Prop} (trans : ∀ {a b c}, R a b → R b c → R a c) (first : R s (f s).1)
    (second : ∀ t, R t (g t).1) : R s (f.andThen g s).1 := by
  cases threw : (f s).2 with
  | true =>
    rw [andThen_stopped threw]
    exact first
  | false =>
    rw [andThen_passed threw]
    exact trans first (second _)

theorem each_keeps {f : α → Script σ} {R : σ → σ → Prop} (refl : ∀ a, R a a) (trans : ∀ {a b c}, R a b → R b c → R a c)
    {as : List α} (one : ∀ a ∈ as, ∀ t, R t (f a t).1) (s : σ) : R s (each f as s).1 := by
  induction as generalizing s with
  | nil => exact refl s
  | cons a as ih =>
    exact andThen_keeps trans (one a List.mem_cons_self s) (ih fun b mem => one b (List.mem_cons_of_mem _ mem))

/-- A loop throws when one of its turns does. -/
theorem each_threw {f : α → Script σ} {bad : α → Bool} (one : ∀ a t, (f a t).2 = bad a) (as : List α) (s : σ) :
    (each f as s).2 = as.any bad := by
  induction as generalizing s with
  | nil => rfl
  | cons a as ih => rw [each, andThen_threw, one, ih, List.any_cons]

/-- A loop whose turns all pass. -/
theorem each_passed {f : α → Script σ} {step : σ → α → σ} {bad : α → Bool} (one : ∀ a t, f a t = (step t a, bad a)) :
    ∀ {as : List α} (s : σ), as.any bad = false → each f as s = (as.foldl step s, false) := by
  intro as
  induction as with
  | nil => exact fun s _ => rfl
  | cons a as ih =>
    intro s passed
    rw [List.any_cons, Bool.or_eq_false_iff] at passed
    rw [each, andThen_passed (by rw [one, passed.1]), one, ih _ passed.2, List.foldl_cons]

end Script
