import Mathlib

/-!
# Numbers missing from a sequence

What a stream of numbers, in any order and with repetitions, shows to be
missing. `never` are the numbers between the first one and the highest one that
do not occur, `skipped` those that had not occurred when a higher one did, `late`
those of them that occur after all. A counter that only remembers where it
stands counts `skipped`, of which each number adds what `card_skipped_snoc` says.

A counter that starts over after a jump backwards cuts the stream into
`stretches`; `skips` is the total over them, and never less than `never`.
-/

namespace SequenceGaps

/-- The highest number. -/
def high (xs : List ℕ) : ℕ := xs.foldr max 0

/-- The numbers strictly between the first one and the highest one. -/
def between (xs : List ℕ) : Finset ℕ := Finset.Ioo (xs.headD 0) (high xs)

/-- The numbers in between that do not occur. -/
def never (xs : List ℕ) : Finset ℕ := (between xs).filter (· ∉ xs)

/-- The first number that is not below `y` is above it. -/
def passes (y : ℕ) : List ℕ → Bool
  | [] => false
  | x :: xs => if x < y then passes y xs else decide (y < x)

/-- The numbers in between that a higher one came before. -/
def skipped (xs : List ℕ) : Finset ℕ := (between xs).filter fun y => passes y xs = true

/-- The skipped numbers that occur later. -/
def late (xs : List ℕ) : Finset ℕ := (skipped xs).filter (· ∈ xs)

section High

variable {xs : List ℕ}

theorem le_high {x : ℕ} (h : x ∈ xs) : x ≤ high xs := by
  induction xs with
  | nil => cases h
  | cons y ys ih =>
    rcases List.mem_cons.1 h with rfl | h
    · exact le_max_left _ _
    · exact (ih h).trans (le_max_right _ _)

theorem high_mem (ne : xs ≠ []) : high xs ∈ xs := by
  induction xs with
  | nil => exact absurd rfl ne
  | cons y ys ih =>
    show max y (high ys) ∈ _
    rcases eq_or_ne ys [] with rfl | ne
    · simp [high]
    · rcases max_choice y (high ys) with h | h <;> rw [h]
      · exact List.mem_cons_self
      · exact List.mem_cons_of_mem _ (ih ne)

theorem high_snoc (xs : List ℕ) (x : ℕ) : high (xs ++ [x]) = max (high xs) x := by
  induction xs with
  | nil => simp [high]
  | cons y ys ih =>
    show max y (high (ys ++ [x])) = max (max y (high ys)) x
    rw [ih, max_assoc]

@[simp] theorem high_singleton (x : ℕ) : high [x] = x := by simp [high]

theorem head_snoc (ne : xs ≠ []) (x : ℕ) : (xs ++ [x]).headD 0 = xs.headD 0 := by
  cases xs with
  | nil => exact absurd rfl ne
  | cons y ys => rfl

theorem head_le_high (ne : xs ≠ []) : xs.headD 0 ≤ high xs := by
  cases xs with
  | nil => exact absurd rfl ne
  | cons y ys => exact le_max_left _ _

end High

section Passes

variable {xs zs : List ℕ} {y : ℕ}

/-- Whether `y` is passed over is settled by the first number that is not below it. -/
theorem passes_append_of_reached (h : ∃ z ∈ xs, y ≤ z) : passes y (xs ++ zs) = passes y xs := by
  induction xs with
  | nil => obtain ⟨z, hz, _⟩ := h; cases hz
  | cons x xs ih =>
    rw [List.cons_append, passes, passes]
    split
    next below =>
      apply ih
      obtain ⟨z, hz, le⟩ := h
      rcases List.mem_cons.1 hz with rfl | hz
      · omega
      · exact ⟨z, hz, le⟩
    next => rfl

theorem passes_append_of_below (h : ∀ z ∈ xs, z < y) : passes y (xs ++ zs) = passes y zs := by
  induction xs with
  | nil => rfl
  | cons x xs ih =>
    rw [List.cons_append, passes, if_pos (h x List.mem_cons_self)]
    exact ih fun z hz => h z (List.mem_cons_of_mem _ hz)

/-- A number that does not occur is passed over by the first higher one. -/
theorem passes_of_not_mem (absent : y ∉ xs) (h : ∃ z ∈ xs, y < z) : passes y xs = true := by
  induction xs with
  | nil => obtain ⟨z, hz, _⟩ := h; cases hz
  | cons x xs ih =>
    have ne : y ≠ x := fun e => absent (e ▸ List.mem_cons_self)
    rw [passes]
    split
    next below =>
      apply ih (fun h => absent (List.mem_cons_of_mem _ h))
      obtain ⟨z, hz, lt⟩ := h
      rcases List.mem_cons.1 hz with rfl | hz
      · omega
      · exact ⟨z, hz, lt⟩
    next => simp; omega

theorem exists_of_passes (h : passes y xs = true) : ∃ z ∈ xs, y < z := by
  induction xs with
  | nil => cases h
  | cons x xs ih =>
    rw [passes] at h
    split at h
    · obtain ⟨z, hz, lt⟩ := ih h
      exact ⟨z, List.mem_cons_of_mem _ hz, lt⟩
    · exact ⟨x, List.mem_cons_self, by simpa using h⟩

end Passes

section Counts

variable {xs : List ℕ}

theorem never_eq (xs : List ℕ) : never xs = (skipped xs).filter (· ∉ xs) := by
  ext y
  simp only [never, skipped, Finset.mem_filter, and_assoc]
  constructor
  · rintro ⟨mem, absent⟩
    have lt := (Finset.mem_Ioo.1 mem).2
    have ne : xs ≠ [] := by rintro rfl; simp [high] at lt
    exact ⟨mem, passes_of_not_mem absent ⟨_, high_mem ne, lt⟩, absent⟩
  · rintro ⟨mem, _, absent⟩
    exact ⟨mem, absent⟩

/-- A skipped number never occurs or occurs late. -/
theorem card_skipped (xs : List ℕ) : (skipped xs).card = (never xs).card + (late xs).card := by
  rw [never_eq, late, add_comm]
  exact (Finset.card_filter_add_card_filter_not _).symm

@[simp] theorem skipped_singleton (x : ℕ) : skipped [x] = ∅ := by simp [skipped, between]

@[simp] theorem never_singleton (x : ℕ) : never [x] = ∅ := by simp [never, between]

/-- A number above all others skips the ones up to it. -/
theorem skipped_snoc (ne : xs ≠ []) (x : ℕ) : skipped (xs ++ [x]) = skipped xs ∪ Finset.Ioo (high xs) x := by
  have first := head_le_high ne
  ext y
  simp only [skipped, between, head_snoc ne, high_snoc, Finset.mem_filter, Finset.mem_union, Finset.mem_Ioo]
  rcases Nat.lt_or_ge (high xs) y with above | reached
  · have below : ∀ z ∈ xs, z < y := fun z hz => (le_high hz).trans_lt above
    rw [passes_append_of_below below]
    rw [passes]
    split
    · simp only [passes, Bool.false_eq_true, and_false, false_iff]
      omega
    · simp only [decide_eq_true_eq]
      omega
  · rw [passes_append_of_reached ⟨_, high_mem ne, reached⟩]
    constructor
    · rintro ⟨⟨lo, _⟩, passed⟩
      refine .inl ⟨⟨lo, lt_of_le_of_ne reached ?_⟩, passed⟩
      rintro rfl
      obtain ⟨z, hz, lt⟩ := exists_of_passes passed
      exact absurd (le_high hz) (Nat.not_le_of_lt lt)
    · rintro (⟨⟨lo, hi⟩, passed⟩ | ⟨lo, _⟩)
      · exact ⟨⟨lo, hi.trans_le (le_max_left _ _)⟩, passed⟩
      · omega

theorem card_skipped_snoc (ne : xs ≠ []) (x : ℕ) :
    (skipped (xs ++ [x])).card = (skipped xs).card + (x - high xs - 1) := by
  rw [skipped_snoc ne, Finset.card_union_of_disjoint, Nat.card_Ioo]
  rw [Finset.disjoint_left]
  intro y old new
  have lt := (Finset.mem_Ioo.1 (Finset.mem_filter.1 old).1).2
  have gt := (Finset.mem_Ioo.1 new).1
  omega

theorem card_skipped_le (xs : List ℕ) : (skipped xs).card ≤ high xs := by
  calc (skipped xs).card ≤ (between xs).card := Finset.card_filter_le _ _
    _ = high xs - xs.headD 0 - 1 := Nat.card_Ioo _ _
    _ ≤ high xs := by omega

theorem card_never_snoc_le (ne : xs ≠ []) (x : ℕ) :
    (never (xs ++ [x])).card ≤ (never xs).card + (x - high xs - 1) := by
  have sub : never (xs ++ [x]) ⊆ never xs ∪ Finset.Ioo (high xs) x := by
    intro y hy
    simp only [never, between, head_snoc ne, high_snoc, Finset.mem_filter, Finset.mem_union, Finset.mem_Ioo,
      List.mem_append, List.mem_singleton, not_or] at hy ⊢
    have apart : y ≠ high xs := fun e => hy.2.1 (e ▸ high_mem ne)
    by_cases above : high xs < y
    · exact .inr ⟨above, by omega⟩
    · exact .inl ⟨⟨hy.1.1, by omega⟩, hy.2.1⟩
  calc (never (xs ++ [x])).card ≤ (never xs ∪ Finset.Ioo (high xs) x).card := Finset.card_le_card sub
    _ ≤ (never xs).card + (Finset.Ioo (high xs) x).card := Finset.card_union_le _ _
    _ = (never xs).card + (x - high xs - 1) := by rw [Nat.card_Ioo]

end Counts

section Stretches

/-- `g` followed by `xs`, cut where a number makes the counter start over. -/
def splitFrom (resets : ℕ → ℕ → Bool) (g : List ℕ) : List ℕ → List (List ℕ)
  | [] => [g]
  | x :: xs => if resets (high g) x then g :: splitFrom resets [x] xs else splitFrom resets (g ++ [x]) xs

/-- The stretches of a stream: `resets h x` says that `x` after a highest number `h` begins a new one. -/
def stretches (resets : ℕ → ℕ → Bool) : List ℕ → List (List ℕ)
  | [] => []
  | x :: xs => splitFrom resets [x] xs

/-- The numbers skipped, counted in each stretch. -/
def total (gs : List (List ℕ)) : ℕ := (gs.map fun g => (skipped g).card).sum

def skips (resets : ℕ → ℕ → Bool) (xs : List ℕ) : ℕ := total (stretches resets xs)

/-- No number of the stream starts the counter over. -/
def Steady (resets : ℕ → ℕ → Bool) (xs : List ℕ) : Prop :=
  ∀ pre x post, xs = pre ++ x :: post → pre ≠ [] → resets (high pre) x = false

variable {resets : ℕ → ℕ → Bool}

theorem splitFrom_steady {g xs : List ℕ} (ne : g ≠ []) (steady : Steady resets (g ++ xs)) :
    splitFrom resets g xs = [g ++ xs] := by
  induction xs generalizing g with
  | nil => rw [List.append_nil]; rfl
  | cons x xs ih =>
    rw [splitFrom, steady g x xs rfl ne, if_neg Bool.false_ne_true, ih (by simp) (by simpa using steady)]
    simp

/-- Without starting over, what is skipped is counted once. -/
theorem skips_steady {xs : List ℕ} (steady : Steady resets xs) : skips resets xs = (skipped xs).card := by
  cases xs with
  | nil => rfl
  | cons x xs => simp [skips, stretches, total, splitFrom_steady (g := [x]) (by simp) steady]

theorem never_le_total (back : ∀ h x, resets h x = true → x ≤ h) {g p : List ℕ} (xs : List ℕ) (hg : g ≠ []) (hp : p ≠ [])
    (le : high g ≤ high p) :
    (never (p ++ xs)).card + (skipped g).card ≤ (never p).card + total (splitFrom resets g xs) := by
  induction xs generalizing g p with
  | nil => simp [splitFrom, total]
  | cons x xs ih =>
    have grow := card_never_snoc_le hp x
    have next := high_snoc p x
    rw [splitFrom]
    split
    next reset =>
      have := back _ _ reset
      have rest := ih (g := [x]) (p := p ++ [x]) (by simp) (by simp) (by simp [high_snoc])
      simp only [skipped_singleton, Finset.card_empty, List.append_assoc, List.singleton_append] at rest
      simp only [total, List.map_cons, List.sum_cons] at rest ⊢
      omega
    next =>
      have rest := ih (g := g ++ [x]) (p := p ++ [x]) (by simp) (by simp) (by rw [high_snoc, high_snoc]; omega)
      rw [card_skipped_snoc hg, List.append_assoc, List.singleton_append] at rest
      omega

/-- Nothing that never occurs escapes the count. -/
theorem never_le_skips (back : ∀ h x, resets h x = true → x ≤ h) (xs : List ℕ) :
    (never xs).card ≤ skips resets xs := by
  cases xs with
  | nil => exact Nat.zero_le _
  | cons x xs =>
    have bound := never_le_total back (g := [x]) (p := [x]) xs (by simp) (by simp) le_rfl
    rw [never_singleton, skipped_singleton, Finset.card_empty, Nat.add_zero, Nat.zero_add] at bound
    exact bound

end Stretches

end SequenceGaps
