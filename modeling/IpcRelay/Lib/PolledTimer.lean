import Mathlib

/-!
# Periodic duties of a polling loop

A loop compares a deadline with the clock in each round. When it has come, the duty
is done and the deadline moves on by a rule: `fresh` counts an interval from the
round. `firings` are the times of the duty over a list of clock readings. Whatever
the rule, the duty is done between any two readings an interval apart
(`fires_between`); counted from now, two of its times are an interval apart
(`fresh_spaced`).
-/

namespace PolledTimer

/-- How a deadline `d` that has come at the time `t` moves on. -/
structure Rule (interval : Nat) where
  next : Nat → Nat → Nat
  ahead : ∀ {d t}, d ≤ t → t < next d t
  soon : ∀ {d t}, d ≤ t → next d t ≤ t + interval

variable {interval : Nat}

/-- An interval from now. -/
def fresh (pos : 0 < interval) : Rule interval where
  next _ t := t + interval
  ahead _ := by omega
  soon _ := by omega

variable (a : Rule interval)

/-- The deadline after a reading of the clock. -/
def poll (d t : Nat) : Nat := if d ≤ t then a.next d t else d

def deadline (d : Nat) (ts : List Nat) : Nat := ts.foldl (poll a) d

/-- The readings at which the duty is done. -/
def firings (d : Nat) : List Nat → List Nat
  | [] => []
  | t :: ts => if d ≤ t then t :: firings (poll a d t) ts else firings (poll a d t) ts

@[simp] theorem firings_nil (d : Nat) : firings a d [] = [] := rfl

theorem firings_append (d : Nat) (ts us : List Nat) :
    firings a d (ts ++ us) = firings a d ts ++ firings a (deadline a d ts) us := by
  induction ts generalizing d with
  | nil => rfl
  | cons t ts ih =>
    simp only [List.cons_append, firings, ih, deadline, List.foldl_cons]
    split <;> rfl

theorem deadline_append (d : Nat) (ts us : List Nat) :
    deadline a d (ts ++ us) = deadline a (deadline a d ts) us :=
  List.foldl_append

section Poll

variable {a} {d t : Nat}

theorem lt_poll (d t : Nat) : t < poll a d t := by
  unfold poll
  split
  next due => exact a.ahead due
  next not => omega

theorem le_poll (d t : Nat) : d ≤ poll a d t := by
  unfold poll
  split
  next due =>
    have := a.ahead due
    omega
  next => exact Nat.le_refl d

theorem poll_soon {t₀ : Nat} (soon : d ≤ t₀ + interval) (later : t₀ ≤ t) : poll a d t ≤ t + interval := by
  unfold poll
  split
  next due => exact a.soon due
  next => omega

end Poll

/-- The deadline lies ahead of every reading. -/
theorem lt_deadline (d : Nat) (ts : List Nat) : ∀ t ∈ ts, t < deadline a d ts := by
  induction ts using List.reverseRecOn with
  | nil => exact fun t mem => by cases mem
  | append_singleton ts u ih =>
    intro t mem
    rw [deadline_append]
    show t < poll a (deadline a d ts) u
    rcases List.mem_append.1 mem with old | new
    · exact (ih t old).trans_le (le_poll _ u)
    · rw [List.mem_singleton.1 new]
      exact lt_poll _ u

/-- With a clock that does not go back, it is an interval ahead of the last reading at most. -/
theorem deadline_le {d t₀ : Nat} {ts : List Nat} (sorted : (t₀ :: ts).Pairwise (· ≤ ·)) (soon : d ≤ t₀ + interval) :
    deadline a d ts ≤ (t₀ :: ts).getLast (List.cons_ne_nil _ _) + interval := by
  induction ts generalizing d t₀ with
  | nil => exact soon
  | cons u ts ih =>
    obtain ⟨below, rest⟩ := List.pairwise_cons.1 sorted
    have step := @poll_soon _ a d u t₀ soon (below u List.mem_cons_self)
    rw [List.getLast_cons (List.cons_ne_nil u ts)]
    exact ih rest step

/-- A deadline that comes by the time `b` finds the duty done by then, and not before it comes. -/
theorem fires_by {d b : Nat} {ts : List Nat} (sorted : ts.Pairwise (· ≤ ·)) (mem : b ∈ ts) (due : d ≤ b) :
    ∃ t ∈ firings a d ts, d ≤ t ∧ t ≤ b := by
  induction ts with
  | nil => cases mem
  | cons u ts ih =>
    obtain ⟨least, rest⟩ := List.pairwise_cons.1 sorted
    unfold firings
    by_cases now : d ≤ u
    · rw [if_pos now]
      refine ⟨u, List.mem_cons_self, now, ?_⟩
      rcases List.mem_cons.1 mem with rfl | later
      · exact Nat.le_refl _
      · exact least b later
    · have stays : poll a d u = d := if_neg now
      rw [if_neg now, stays]
      rcases List.mem_cons.1 mem with rfl | later
      · exact absurd due now
      · exact ih rest later

/-- It is done between any two readings that are an interval apart, the start of the clock among them. -/
theorem fires_between {d t₀ x b : Nat} {ts : List Nat} (sorted : (t₀ :: ts).Pairwise (· ≤ ·)) (ahead : t₀ < d)
    (soon : d ≤ t₀ + interval) (early : x ∈ t₀ :: ts) (late : b ∈ ts) (apart : x + interval ≤ b) (pos : 0 < interval) :
    ∃ t ∈ firings a d ts, x < t ∧ t ≤ b := by
  rcases List.mem_cons.1 early with rfl | mem
  · obtain ⟨t, fired, after, by_⟩ := fires_by a (List.pairwise_cons.1 sorted).2 late (soon.trans apart)
    exact ⟨t, fired, ahead.trans_le after, by_⟩
  · obtain ⟨us, vs, rfl⟩ := List.append_of_mem mem
    have split : us ++ x :: vs = (us ++ [x]) ++ vs := by simp
    rw [split, ← List.cons_append] at sorted
    obtain ⟨front, back, order⟩ := List.pairwise_append.1 sorted
    have last : (t₀ :: (us ++ [x])).getLast (List.cons_ne_nil _ _) = x := by simp
    have near := deadline_le a front soon
    rw [last] at near
    have after := lt_deadline a d (us ++ [x]) x (by simp)
    have later : b ∈ vs := by
      rw [split] at late
      rcases List.mem_append.1 late with before | mem
      · have below : b ≤ x := by
          have order' := (List.pairwise_append.1 (List.pairwise_cons.1 front).2).2.2
          rcases List.mem_append.1 before with old | new
          · exact order' b old x (List.mem_singleton_self x)
          · exact (List.mem_singleton.1 new).le
        omega
      · exact mem
    obtain ⟨t, fired, due, by_⟩ := fires_by a back later (near.trans apart)
    refine ⟨t, ?_, after.trans_le due, by_⟩
    rw [split, firings_append]
    exact List.mem_append_right _ fired

/-- Counted from now, two of the times of the duty are an interval apart, and the first comes with the deadline. -/
theorem fresh_spaced (pos : 0 < interval) {d : Nat} {ts : List Nat} :
    (∀ t ∈ firings (fresh pos) d ts, d ≤ t) ∧
      (firings (fresh pos) d ts).Pairwise fun t u => t + interval ≤ u := by
  induction ts generalizing d with
  | nil => exact ⟨fun t mem => (List.not_mem_nil mem).elim, .nil⟩
  | cons u ts ih =>
    unfold firings
    by_cases due : d ≤ u
    · have moved : poll (fresh pos) d u = u + interval := if_pos due
      obtain ⟨first, spaced⟩ := @ih (u + interval)
      rw [if_pos due, moved]
      refine ⟨?_, List.pairwise_cons.2 ⟨first, spaced⟩⟩
      intro t mem
      rcases List.mem_cons.1 mem with rfl | later
      · exact due
      · have := first t later
        omega
    · have stays : poll (fresh pos) d u = d := if_neg due
      rw [if_neg due, stays]
      exact ih

/-- Counted from now, the deadline is an interval after the last time of the duty, or after the start. -/
theorem fresh_deadline (pos : 0 < interval) (t₀ : Nat) (ts : List Nat) : deadline (fresh pos) (t₀ + interval) ts =
    (firings (fresh pos) (t₀ + interval) ts).getLast?.getD t₀ + interval := by
  induction ts using List.reverseRecOn with
  | nil => rfl
  | append_singleton ts t ih =>
    rw [deadline_append, firings_append]
    show poll (fresh pos) (deadline (fresh pos) (t₀ + interval) ts) t = _
    by_cases due : deadline (fresh pos) (t₀ + interval) ts ≤ t
    · have moved : poll (fresh pos) (deadline (fresh pos) (t₀ + interval) ts) t = t + interval := if_pos due
      rw [moved, show firings (fresh pos) (deadline (fresh pos) (t₀ + interval) ts) [t] = [t] from if_pos due]
      simp
    · have stays : poll (fresh pos) (deadline (fresh pos) (t₀ + interval) ts) t = deadline (fresh pos) (t₀ + interval) ts :=
        if_neg due
      rw [stays, show firings (fresh pos) (deadline (fresh pos) (t₀ + interval) ts) [t] = [] from if_neg due,
        List.append_nil]
      exact ih

end PolledTimer
