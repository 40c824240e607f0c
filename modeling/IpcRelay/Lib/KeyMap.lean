import Mathlib

/-!
# Finite maps with a size and totals

Mathlib's `AList` at a constant value type, with what a program's containers
add: the number of keys, `operator[]` as `update`, and the total of a measure
over the entries, which an insertion or an erasure changes at one key only.
-/

/-- A finite map from `κ` to `α`, no key twice. -/
abbrev KeyMap (κ α : Type) := AList (fun _ : κ => α)

namespace KeyMap

variable {κ α : Type}

/-- The number of keys. -/
def size (m : KeyMap κ α) : Nat := m.keys.length

/-- The total of a measure over all entries. -/
def total (m : KeyMap κ α) (w : κ → α → Nat) : Nat := (m.entries.map fun e => w e.1 e.2).sum

@[simp] theorem size_empty : size (∅ : KeyMap κ α) = 0 := rfl

@[simp] theorem total_empty (w : κ → α → Nat) : total (∅ : KeyMap κ α) w = 0 := rfl

theorem size_eq_total (m : KeyMap κ α) : size m = total m fun _ _ => 1 := by
  simp [size, total, AList.keys, List.keys]

/-- Counting is adding up indicators. -/
theorem countP_eq_sum {β : Type} (p : β → Prop) [DecidablePred p] (l : List β) :
    l.countP (fun b => decide (p b)) = (l.map fun b => if p b then 1 else 0).sum := by
  induction l with
  | nil => rfl
  | cons b l ih =>
    rw [List.countP_cons, List.map_cons, List.sum_cons, ih, Nat.add_comm]
    simp only [decide_eq_true_eq]

variable [DecidableEq κ]

/-- The value at `k`, or the default `d` where there is none. -/
def get (d : α) (m : KeyMap κ α) (k : κ) : α := (m.lookup k).getD d

/-- `m[k] = f(m[k])`, where a missing value starts as `d`. -/
def update (d : α) (m : KeyMap κ α) (k : κ) (f : α → α) : KeyMap κ α := m.insert k (f (get d m k))

theorem mem_keys_of_lookup {m : KeyMap κ α} {k : κ} {v : α} (h : m.lookup k = some v) : k ∈ m.keys :=
  AList.mem_keys.1 (AList.lookup_isSome.1 (by rw [h]; rfl))

theorem exists_lookup {m : KeyMap κ α} {k : κ} (h : k ∈ m.keys) : ∃ v, m.lookup k = some v :=
  Option.isSome_iff_exists.1 (AList.lookup_isSome.2 (AList.mem_keys.2 h))

theorem lookup_insert_eq (m : KeyMap κ α) (k j : κ) (v : α) :
    (m.insert k v).lookup j = if j = k then some v else m.lookup j := by
  split
  next h => subst h; exact AList.lookup_insert m
  next h => exact AList.lookup_insert_ne h

theorem lookup_erase_eq (m : KeyMap κ α) (k j : κ) :
    (m.erase k).lookup j = if j = k then none else m.lookup j := by
  split
  next h => subst h; exact AList.lookup_erase j m
  next h => exact AList.lookup_erase_ne h

theorem get_update (d : α) (m : KeyMap κ α) (k j : κ) (f : α → α) :
    get d (update d m k f) j = if j = k then f (get d m k) else get d m j := by
  unfold get update
  rw [lookup_insert_eq]
  split <;> simp [get]

@[simp] theorem get_empty (d : α) (k : κ) : get d (∅ : KeyMap κ α) k = d := rfl

/-- Erasing a key takes its entry's share off the total. -/
theorem total_erase {m : KeyMap κ α} {k : κ} {v : α} (w : κ → α → Nat) (h : m.lookup k = some v) :
    total m w = w k v + total (m.erase k) w := by
  obtain ⟨b, l₁, l₂, _, split, erased⟩ := List.exists_of_kerase (mem_keys_of_lookup h)
  have hb : b = v := by
    have hmem : (⟨k, b⟩ : Sigma fun _ : κ => α) ∈ m.entries := by rw [split]; simp
    have := AList.mem_lookup_iff.2 hmem
    rw [h] at this
    exact (Option.some.inj this).symm
  subst hb
  have he : (m.erase k).entries = l₁ ++ l₂ := erased
  simp only [total, he]
  rw [split]
  simp
  omega

/-- Inserting at a key replaces its share of the total. -/
theorem total_insert {m : KeyMap κ α} {k : κ} {v : α} (w : κ → α → Nat) :
    total (m.insert k v) w = w k v + total (m.erase k) w := by
  simp [total, AList.entries_insert, AList.erase]

theorem total_insert_new {m : KeyMap κ α} {k : κ} {v : α} (w : κ → α → Nat) (h : m.lookup k = none) :
    total (m.insert k v) w = w k v + total m w := by
  have same : (m.erase k).entries = m.entries :=
    List.kerase_of_notMem_keys fun hk => AList.lookup_eq_none.1 h (AList.mem_keys.2 hk)
  rw [total_insert]
  simp only [total, same]

theorem total_insert_old {m : KeyMap κ α} {k : κ} {v u : α} (w : κ → α → Nat) (h : m.lookup k = some u) :
    total (m.insert k v) w + w k u = total m w + w k v := by
  rw [total_insert, total_erase w h]
  omega

theorem total_update (d : α) (m : KeyMap κ α) (k : κ) (f : α → α) (w : κ → α → Nat)
    (zero : w k d = 0) : total (update d m k f) w + w k (get d m k) = total m w + w k (f (get d m k)) := by
  unfold update get
  cases h : m.lookup k with
  | none => simp [total_insert_new w h, zero]; omega
  | some v => simpa using total_insert_old (v := f v) w h

theorem size_insert_new {m : KeyMap κ α} {k : κ} {v : α} (h : m.lookup k = none) :
    size (m.insert k v) = size m + 1 := by
  rw [size_eq_total, size_eq_total, total_insert_new _ h]; omega

theorem size_insert_old {m : KeyMap κ α} {k : κ} {v u : α} (h : m.lookup k = some u) :
    size (m.insert k v) = size m := by
  have := total_insert_old (v := v) (fun _ _ => 1) h
  rw [size_eq_total, size_eq_total]; omega

theorem size_erase {m : KeyMap κ α} {k : κ} {v : α} (h : m.lookup k = some v) :
    size (m.erase k) + 1 = size m := by
  rw [size_eq_total, size_eq_total, total_erase _ h]; omega

/-- A map all of whose keys are keys of another one is no larger. -/
theorem size_le_of_keys {β : Type} {m : KeyMap κ α} {n : KeyMap κ β}
    (h : ∀ k v, m.lookup k = some v → ∃ w, n.lookup k = some w) : size m ≤ size n := by
  apply (m.keys_nodup.subperm _).length_le
  intro k hk
  obtain ⟨v, hv⟩ := exists_lookup hk
  obtain ⟨w, hw⟩ := h k v hv
  exact mem_keys_of_lookup hw

/-- A total of bounded shares. -/
theorem total_le {m : KeyMap κ α} {w : κ → α → Nat} {b : Nat} (h : ∀ k v, m.lookup k = some v → w k v ≤ b) :
    total m w ≤ size m * b := by
  have len : (m.entries.map fun e => w e.1 e.2).length = size m := by
    simp [size, AList.keys, List.keys]
  rw [← len, ← smul_eq_mul]
  apply List.sum_le_card_nsmul
  intro x hx
  obtain ⟨⟨k, v⟩, mem, rfl⟩ := List.mem_map.1 hx
  exact h k v (AList.mem_lookup_iff.2 mem)

end KeyMap
