import Mathlib

/-!
# The first occurrence of a list in another

`firstAt pat s` is the least index from which `pat` stands in `s`
(`firstAt_eq_some`). An occurrence that was found stays the first one when `s`
grows at its end (`firstAt_append`).
-/

namespace Occurrence

variable {α : Type} [DecidableEq α]

def firstAt (pat : List α) : List α → Option Nat
  | [] => if pat = [] then some 0 else none
  | a :: s => if pat <+: a :: s then some 0 else (firstAt pat s).map (· + 1)

variable {pat s : List α} {i : Nat}

theorem firstAt_eq_some : firstAt pat s = some i ↔ pat <+: s.drop i ∧ i ≤ s.length ∧ ∀ j < i, ¬ pat <+: s.drop j := by
  induction s generalizing i with
  | nil =>
    by_cases empty : pat = []
    · rw [firstAt, if_pos empty, empty]
      constructor
      · intro h
        cases h
        simp
      · rintro ⟨_, le, _⟩
        rw [Nat.le_zero.1 le]
    · rw [firstAt, if_neg empty]
      simp [empty]
  | cons a s ih =>
    by_cases here : pat <+: a :: s
    · rw [firstAt, if_pos here]
      constructor
      · intro h
        cases h
        exact ⟨here, Nat.zero_le _, fun j lt => absurd lt (Nat.not_lt_zero _)⟩
      · rintro ⟨_, _, first⟩
        rcases Nat.eq_zero_or_pos i with rfl | pos
        · rfl
        · exact absurd here (first 0 pos)
    · rw [firstAt, if_neg here, Option.map_eq_some_iff]
      constructor
      · rintro ⟨k, hk, rfl⟩
        obtain ⟨at_k, le, first⟩ := ih.1 hk
        refine ⟨at_k, Nat.succ_le_succ le, ?_⟩
        intro j lt
        cases j with
        | zero => exact here
        | succ j => exact first j (by omega)
      · rintro ⟨at_i, le, first⟩
        cases i with
        | zero => exact absurd at_i here
        | succ k =>
          refine ⟨k, ih.2 ⟨at_i, Nat.le_of_succ_le_succ le, ?_⟩, rfl⟩
          intro j lt
          exact first (j + 1) (by omega)

theorem firstAt_eq_none : firstAt pat s = none ↔ ∀ j ≤ s.length, ¬ pat <+: s.drop j := by
  constructor
  · intro h
    by_contra exists_at
    push Not at exists_at
    obtain ⟨j, ⟨le, at_j⟩, first⟩ := Nat.findX (p := fun j => j ≤ s.length ∧ pat <+: s.drop j) exists_at
    have found : firstAt pat s = some j := firstAt_eq_some.2 ⟨at_j, le, fun k lt at_k => first k lt ⟨by omega, at_k⟩⟩
    rw [h] at found
    cases found
  · intro absent
    cases h : firstAt pat s with
    | none => rfl
    | some i =>
      obtain ⟨at_i, le, _⟩ := firstAt_eq_some.1 h
      exact absurd at_i (absent i le)

/-- The occurrence lies within the list. -/
theorem firstAt_end (h : firstAt pat s = some i) : i + pat.length ≤ s.length := by
  obtain ⟨at_i, le, _⟩ := firstAt_eq_some.1 h
  have := at_i.length_le
  rw [List.length_drop] at this
  omega

/-- A list that stands somewhere is found there or before. -/
theorem firstAt_le {j : Nat} (at_j : pat <+: s.drop j) (le : j ≤ s.length) : ∃ i ≤ j, firstAt pat s = some i := by
  cases h : firstAt pat s with
  | none => exact absurd at_j (firstAt_eq_none.1 h j le)
  | some i =>
    refine ⟨i, ?_, rfl⟩
    by_contra lt
    exact (firstAt_eq_some.1 h).2.2 j (by omega) at_j

theorem firstAt_append (h : firstAt pat s = some i) (more : List α) : firstAt pat (s ++ more) = some i := by
  have fits := firstAt_end h
  obtain ⟨at_i, le, first⟩ := firstAt_eq_some.1 h
  apply firstAt_eq_some.2
  refine ⟨?_, by simp; omega, ?_⟩
  · rw [List.drop_append_of_le_length le]
    exact at_i.trans (List.prefix_append _ _)
  · intro j lt at_j
    rw [List.drop_append_of_le_length (by omega)] at at_j
    apply first j lt
    have short : pat.length ≤ (s.drop j).length := by
      rw [List.length_drop]
      omega
    exact List.prefix_of_prefix_length_le at_j (List.prefix_append _ _) short

/-- It stands at the front. -/
theorem firstAt_front (pat s : List α) : firstAt pat (pat ++ s) = some 0 := by
  refine firstAt_eq_some.2 ⟨List.prefix_append .., Nat.zero_le _, ?_⟩
  intro j lt
  exact absurd lt (Nat.not_lt_zero j)

/-- What has not the first element of it is passed over. -/
theorem firstAt_skip {p : α} {line : List α} (free : p ∉ line) (pat s : List α) :
    firstAt (p :: pat) (line ++ s) = (firstAt (p :: pat) s).map (line.length + ·) := by
  induction line with
  | nil => simp
  | cons a line ih =>
    obtain ⟨other, free⟩ := List.ne_and_not_mem_of_not_mem_cons free
    rw [List.cons_append, firstAt, if_neg, ih free, Option.map_map]
    · congr 1
      funext i
      simp only [Function.comp, List.length_cons]
      omega
    · rintro ⟨t, h⟩
      exact other (List.cons.inj h).1

/-- The end of what has not the first element of it. -/
theorem firstAt_line {p : α} {line : List α} (free : p ∉ line) (pat s : List α) :
    firstAt (p :: pat) (line ++ (p :: pat ++ s)) = some line.length := by
  rw [firstAt_skip free, firstAt_front]
  rfl

theorem firstAt_free {p : α} (free : p ∉ s) (pat : List α) : firstAt (p :: pat) s = none := by
  have skip := firstAt_skip free pat []
  rw [List.append_nil] at skip
  rw [skip, firstAt, if_neg (by simp)]
  rfl

end Occurrence
