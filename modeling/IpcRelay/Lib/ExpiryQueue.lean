import IpcRelay.Lib.KeyMap

/-!
# A map whose entries expire along a queue

A store keeps its entries in a map and the order of their insertion in a queue
of keys. Keys leave the map without leaving the queue, so the queue may hold
stale keys and repeated ones. `sweep` pops from the front: stale keys are
dropped, due entries are removed, the first entry that is not due stops it.
`popFirst` pops up to the first key still in the map.

A sweep is exact when no due entry is `Hidden` behind one that is not
(`sweep_complete_iff`). `Ordered`, the invariant of a queue that lists the
entries by age, rules that out (`Ordered.not_hidden`).

Where keys come back before their old places are gone, only the last place of
each key is in turn (`InTurn`). `popFirst` then finds an oldest entry unless the
first key is an old place of an entry that others have `Overtaken`
(`popFirst_oldest_iff`). What a sweep leaves is `stays`, in terms of the queue
before it.
-/

namespace ExpiryQueue

variable {κ α : Type} [DecidableEq κ]

/-- Pop from the front of the queue up to the first entry that is not due. The
result is the rest of the queue, the map, and the removed entries. -/
def sweep (due : α → Bool) : List κ → KeyMap κ α → List κ × KeyMap κ α × List (κ × α)
  | [], m => ([], m, [])
  | k :: q, m =>
    match m.lookup k with
    | none => sweep due q m
    | some v =>
      if due v then
        let (q', m', out) := sweep due q (m.erase k)
        (q', m', (k, v) :: out)
      else (k :: q, m, [])

/-- Pop from the front of the queue up to the first key in the map. -/
def popFirst (m : KeyMap κ α) : List κ → Option (κ × α × List κ)
  | [] => none
  | k :: q =>
    match m.lookup k with
    | none => popFirst m q
    | some v => some (k, v, q)

/-- Every entry has a place in the queue. -/
def Listed (q : List κ) (m : KeyMap κ α) : Prop := ∀ k v, m.lookup k = some v → k ∈ q

/-- A due entry all of whose places in the queue are behind an entry that is not due. -/
def Hidden (due : α → Bool) (q : List κ) (m : KeyMap κ α) (k : κ) : Prop :=
  (∃ v, m.lookup k = some v ∧ due v = true) ∧
    ∀ pre post, q = pre ++ k :: post → ∃ j ∈ pre, ∃ u, m.lookup j = some u ∧ due u = false

/-- The last places of the keys are in the order of the stamps. -/
def InTurn (stamp : α → Nat) : List κ → KeyMap κ α → Prop
  | [], _ => True
  | k :: q, m =>
    (k ∈ q ∨ ∀ j ∈ q, ∀ u v, m.lookup k = some u → m.lookup j = some v → stamp u ≤ stamp v) ∧ InTurn stamp q m

/-- The first key in the map is there from an earlier time: behind it, in front of its
last place, stands an older entry. -/
def Overtaken (stamp : α → Nat) (q : List κ) (m : KeyMap κ α) : Prop :=
  ∃ pre k mid post v, q = pre ++ k :: (mid ++ k :: post) ∧ (∀ i ∈ pre, m.lookup i = none) ∧ m.lookup k = some v ∧
    ∃ j ∈ mid, ∃ u, m.lookup j = some u ∧ stamp u < stamp v

/-- The key has an entry that is not due. -/
def young (due : α → Bool) (m : KeyMap κ α) (k : κ) : Bool := (m.lookup k).any fun v => !due v

/-- The key has an entry, and its first place is not in front of all young keys. -/
def stays (due : α → Bool) (q : List κ) (m : KeyMap κ α) (k : κ) : Bool :=
  (m.lookup k).isSome && decide (k ∉ q.takeWhile fun j => !young due m j)

/-- The queue lists the entries by a stamp that does not decrease. -/
def Ordered (stamp : α → Nat) (q : List κ) (m : KeyMap κ α) : Prop :=
  q.Pairwise fun j k => ∀ u v, m.lookup j = some u → m.lookup k = some v → stamp u ≤ stamp v

section PopFirst

variable {m : KeyMap κ α}

theorem popFirst_some {q : List κ} {k : κ} {v : α} {rest : List κ} (h : popFirst m q = some (k, v, rest)) :
    ∃ pre, q = pre ++ k :: rest ∧ (∀ j ∈ pre, m.lookup j = none) ∧ m.lookup k = some v := by
  induction q with
  | nil => cases h
  | cons j q ih =>
    cases hj : m.lookup j with
    | none =>
      simp only [popFirst, hj] at h
      obtain ⟨pre, rfl, stale, hk⟩ := ih h
      exact ⟨j :: pre, rfl, by simpa [hj] using stale, hk⟩
    | some u =>
      simp only [popFirst, hj, Option.some.injEq, Prod.mk.injEq] at h
      obtain ⟨rfl, rfl, rfl⟩ := h
      exact ⟨[], rfl, by simp, hj⟩

theorem popFirst_none {q : List κ} (h : popFirst m q = none) : ∀ j ∈ q, m.lookup j = none := by
  induction q with
  | nil => simp
  | cons j q ih =>
    cases hj : m.lookup j with
    | none =>
      simp only [popFirst, hj] at h
      simpa [hj] using ih h
    | some u => simp [popFirst, hj] at h

/-- A listed map that is not empty has a first key. -/
theorem popFirst_of_listed {q : List κ} {k : κ} {v : α} (listed : Listed q m) (h : m.lookup k = some v) :
    ∃ r, popFirst m q = some r := by
  by_contra stuck
  have stale := popFirst_none (Option.not_isSome_iff_eq_none.1 fun present => stuck (Option.isSome_iff_exists.1 present))
  rw [stale k (listed k v h)] at h
  cases h

/-- Fewer entries are still listed. -/
theorem Listed.mono {m' : KeyMap κ α} {q : List κ} (listed : Listed q m)
    (old : ∀ k v, m'.lookup k = some v → m.lookup k = some v) : Listed q m' :=
  fun k v h => listed k v (old k v h)

theorem Listed.push {q : List κ} {k : κ} {v : α} (listed : Listed q m) :
    Listed (q ++ [k]) (m.insert k v) := by
  intro j u h
  rw [KeyMap.lookup_insert_eq] at h
  split at h
  next hj => simp [hj]
  next => exact List.mem_append_left _ (listed j u h)

theorem Listed.replace {q : List κ} {k : κ} {v w : α} (listed : Listed q m) (old : m.lookup k = some v) :
    Listed q (m.insert k w) := by
  intro j u h
  rw [KeyMap.lookup_insert_eq] at h
  split at h
  next hj => rw [hj]; exact listed k v old
  next => exact listed j u h

/-- What is left after the first key in the map was taken out is listed in the rest of the queue. -/
theorem Listed.pop {q rest : List κ} {k : κ} {v : α} (listed : Listed q m) (h : popFirst m q = some (k, v, rest)) :
    Listed rest (m.erase k) := by
  obtain ⟨pre, rfl, stale, _⟩ := popFirst_some h
  intro j u hj
  rw [KeyMap.lookup_erase_eq] at hj
  split at hj
  · cases hj
  next ne =>
    rcases List.mem_append.1 (listed j u hj) with hpre | hrest
    · rw [stale j hpre] at hj; cases hj
    · exact (List.mem_cons.1 hrest).resolve_left ne

end PopFirst

section Sweep

variable {due : α → Bool}

/-- Everything one sweep does: `popped` is what it took off the queue. -/
structure Swept (due : α → Bool) (q : List κ) (m : KeyMap κ α) (popped q' : List κ) (m' : KeyMap κ α)
    (out : List (κ × α)) : Prop where
  queue : q = popped ++ q'
  lookup : ∀ k, m'.lookup k = if k ∈ popped then none else m.lookup k
  allDue : ∀ k ∈ popped, ∀ v, m.lookup k = some v → due v = true
  stop : ∀ k rest, q' = k :: rest → ∃ v, m'.lookup k = some v ∧ due v = false
  removed : ∀ k v, (k, v) ∈ out ↔ k ∈ popped ∧ m.lookup k = some v
  once : (out.map Prod.fst).Nodup
  weight : ∀ w : κ → α → Nat, KeyMap.total m w = KeyMap.total m' w + (out.map fun r => w r.1 r.2).sum

theorem sweep_spec (due : α → Bool) (q : List κ) (m : KeyMap κ α) :
    ∃ popped, Swept due q m popped (sweep due q m).1 (sweep due q m).2.1 (sweep due q m).2.2 := by
  induction q generalizing m with
  | nil => exact ⟨[], by constructor <;> simp [sweep]⟩
  | cons k q ih =>
    cases hk : m.lookup k with
    | none =>
      obtain ⟨popped, sw⟩ := ih m
      refine ⟨k :: popped, ?_⟩
      simp only [sweep, hk]
      constructor
      · rw [List.cons_append, ← sw.queue]
      · intro j
        rw [sw.lookup j]
        by_cases hj : j = k
        · subst hj; simp [hk]
        · simp [hj]
      · intro j hj v hv
        rcases List.mem_cons.1 hj with rfl | hj
        · rw [hk] at hv; cases hv
        · exact sw.allDue j hj v hv
      · exact sw.stop
      · intro j v
        rw [sw.removed j v]
        constructor
        · rintro ⟨hj, hv⟩; exact ⟨List.mem_cons_of_mem _ hj, hv⟩
        · rintro ⟨hj, hv⟩
          rcases List.mem_cons.1 hj with rfl | hj
          · rw [hk] at hv; cases hv
          · exact ⟨hj, hv⟩
      · exact sw.once
      · exact sw.weight
    | some v =>
      by_cases hv : due v = true
      · obtain ⟨popped, sw⟩ := ih (m.erase k)
        refine ⟨k :: popped, ?_⟩
        simp only [sweep, hk, hv, if_true]
        constructor
        · rw [List.cons_append, ← sw.queue]
        · intro j
          rw [sw.lookup j, KeyMap.lookup_erase_eq]
          by_cases hj : j = k
          · simp [hj]
          · simp [hj]
        · intro j hj u hu
          by_cases hjk : j = k
          · subst hjk; rw [hk] at hu; cases hu; exact hv
          · refine sw.allDue j ((List.mem_cons.1 hj).resolve_left hjk) u ?_
            rw [KeyMap.lookup_erase_eq, if_neg hjk]; exact hu
        · exact sw.stop
        · intro j u
          rw [List.mem_cons, sw.removed j u, KeyMap.lookup_erase_eq, Prod.mk.injEq, List.mem_cons]
          by_cases hj : j = k
          · subst hj; simp [hk, eq_comm]
          · simp [hj]
        · rw [List.map_cons, List.nodup_cons]
          refine ⟨?_, sw.once⟩
          intro hmem
          obtain ⟨⟨j, u⟩, hju, hj⟩ := List.mem_map.1 hmem
          obtain rfl : j = k := hj
          have := ((sw.removed j u).1 hju).2
          rw [KeyMap.lookup_erase_eq, if_pos rfl] at this
          cases this
        · intro w
          have share := KeyMap.total_erase w hk
          have rest := sw.weight w
          rw [share, rest, List.map_cons, List.sum_cons]
          exact Nat.add_left_comm _ _ _
      · refine ⟨[], ?_⟩
        simp only [sweep, hk, hv, if_false, Bool.false_eq_true]
        constructor
        · rfl
        · simp
        · simp
        · intro j rest h
          cases h
          exact ⟨v, hk, by simpa using hv⟩
        · simp
        · simp
        · simp

variable {q q' popped : List κ} {m m' : KeyMap κ α} {out : List (κ × α)}

theorem Swept.lookup_some (sw : Swept due q m popped q' m' out) {k : κ} {v : α} (h : m'.lookup k = some v) :
    k ∉ popped ∧ m.lookup k = some v := by
  rw [sw.lookup k] at h
  split at h
  · cases h
  · exact ⟨‹_›, h⟩

theorem Swept.listed (sw : Swept due q m popped q' m' out) (listed : Listed q m) : Listed q' m' := by
  intro k v h
  obtain ⟨notPopped, old⟩ := sw.lookup_some h
  have := listed k v old
  rw [sw.queue] at this
  exact (List.mem_append.1 this).resolve_left notPopped

/-- A due entry survives the sweep exactly when it is hidden. -/
theorem Swept.survives_iff (sw : Swept due q m popped q' m' out) {k : κ} {v : α}
    (h : m.lookup k = some v) (hv : due v = true) : m'.lookup k = some v ↔ Hidden due q m k := by
  constructor
  · intro stays
    obtain ⟨notPopped, _⟩ := sw.lookup_some stays
    refine ⟨⟨v, h, hv⟩, ?_⟩
    intro pre post split
    -- the sweep stopped in front of every place of `k`, at an entry that is not due
    rw [sw.queue] at split
    obtain ⟨a, rfl, rest⟩ | ⟨c, hpop, rest⟩ := List.append_eq_append_iff.1 split
    · cases a with
      | nil =>
        rw [List.nil_append] at rest
        obtain ⟨u, hu, young⟩ := sw.stop k post rest
        rw [stays] at hu
        cases hu
        rw [hv] at young
        cases young
      | cons j a =>
        obtain ⟨u, hu, young⟩ := sw.stop j (a ++ k :: post) rest
        exact ⟨j, by simp, u, (sw.lookup_some hu).2, young⟩
    · cases c with
      | nil =>
        rw [List.nil_append] at rest
        obtain ⟨u, hu, young⟩ := sw.stop k post rest.symm
        rw [stays] at hu
        cases hu
        rw [hv] at young
        cases young
      | cons j c =>
        rw [List.cons_append, List.cons.injEq] at rest
        obtain ⟨rfl, _⟩ := rest
        exact absurd (by rw [hpop]; simp) notPopped
  · rintro ⟨_, hidden⟩
    rw [sw.lookup k, if_neg, h]
    intro hpop
    obtain ⟨pre, post, split⟩ := List.append_of_mem hpop
    obtain ⟨j, hj, u, hu, young⟩ := hidden pre (post ++ q') (by rw [sw.queue, split]; simp)
    have := sw.allDue j (by rw [split]; simp [hj]) u hu
    rw [this] at young
    cases young

theorem Swept.gone (sw : Swept due q m popped q' m' out) {k : κ} {v : α} (h : m.lookup k = some v)
    (hv : due v = true) (open_ : ¬ Hidden due q m k) : m'.lookup k = none := by
  by_contra kept
  obtain ⟨u, hu⟩ := Option.ne_none_iff_exists'.1 kept
  have old := (sw.lookup_some hu).2
  rw [h] at old
  cases old
  exact open_ ((sw.survives_iff h hv).1 hu)

/-- A sweep removes every due entry exactly when none is hidden. -/
theorem Swept.complete_iff (sw : Swept due q m popped q' m' out) :
    (∀ k v, m.lookup k = some v → due v = true → m'.lookup k = none) ↔ ∀ k, ¬ Hidden due q m k := by
  constructor
  · intro complete k hidden
    obtain ⟨v, h, hv⟩ := hidden.1
    have stays := (sw.survives_iff h hv).2 hidden
    rw [complete k v h hv] at stays
    cases stays
  · intro seen k v h hv
    exact sw.gone h hv (seen k)

theorem Swept.keeps (sw : Swept due q m popped q' m' out) {k : κ} {v : α} (h : m.lookup k = some v)
    (hv : due v = false) : m'.lookup k = some v := by
  rw [sw.lookup k, if_neg, h]
  intro hpop
  rw [sw.allDue k hpop v h] at hv
  cases hv

/-- The removed entries are the due ones that did not survive. -/
theorem Swept.removed_iff (sw : Swept due q m popped q' m' out) {k : κ} {v : α} :
    (k, v) ∈ out ↔ m.lookup k = some v ∧ m'.lookup k = none := by
  rw [sw.removed, sw.lookup k]
  constructor
  · rintro ⟨hpop, h⟩; exact ⟨h, if_pos hpop⟩
  · rintro ⟨h, gone⟩
    split at gone
    · exact ⟨‹_›, h⟩
    · rw [h] at gone; cases gone

end Sweep

section Order

variable {stamp : α → Nat} {q : List κ} {m m' : KeyMap κ α}

/-- Fewer entries and fewer places stay ordered. -/
theorem Ordered.mono {q' : List κ} (h : Ordered stamp q m) (sub : q'.Sublist q)
    (entries : ∀ k v, m'.lookup k = some v → m.lookup k = some v) : Ordered stamp q' m' :=
  (List.Pairwise.sublist sub h).imp fun rel u v hu hv => rel u v (entries _ _ hu) (entries _ _ hv)

/-- A new key at the end, with a stamp that none exceeds. -/
theorem Ordered.push {k : κ} {v : α} (h : Ordered stamp q m) (new : k ∉ q)
    (latest : ∀ j u, m.lookup j = some u → stamp u ≤ stamp v) : Ordered stamp (q ++ [k]) (m.insert k v) := by
  refine List.pairwise_append.2 ⟨?_, List.pairwise_singleton _ _, ?_⟩
  · refine List.Pairwise.imp_of_mem ?_ h
    intro i j hi hj rel u w hu hw
    rw [KeyMap.lookup_insert_eq, if_neg (fun e => new (by rw [← e]; exact hi))] at hu
    rw [KeyMap.lookup_insert_eq, if_neg (fun e => new (by rw [← e]; exact hj))] at hw
    exact rel u w hu hw
  · intro i hi j hj u w hu hw
    obtain rfl := List.mem_singleton.1 hj
    rw [KeyMap.lookup_insert_eq, if_neg (fun e => new (by rw [← e]; exact hi))] at hu
    rw [KeyMap.lookup_insert_eq, if_pos rfl] at hw
    cases hw
    exact latest i u hu

/-- A new value with the old stamp. -/
theorem Ordered.replace {k : κ} {v w : α} (h : Ordered stamp q m) (old : m.lookup k = some v)
    (same : stamp w = stamp v) : Ordered stamp q (m.insert k w) := by
  refine List.Pairwise.imp ?_ h
  have back : ∀ i u, (m.insert k w).lookup i = some u → ∃ u', m.lookup i = some u' ∧ stamp u = stamp u' := by
    intro i u hu
    rw [KeyMap.lookup_insert_eq] at hu
    split at hu
    · rename_i hi; cases hu; exact ⟨v, by rw [hi]; exact old, same⟩
    · exact ⟨u, hu, rfl⟩
  intro i j rel u x hu hx
  obtain ⟨u', hu', eu⟩ := back i u hu
  obtain ⟨x', hx', ex⟩ := back j x hx
  rw [eu, ex]
  exact rel u' x' hu' hx'

/-- In a queue that is ordered by age nothing is hidden. -/
theorem Ordered.not_hidden {due : α → Bool} (h : Ordered stamp q m) (listed : Listed q m)
    (older : ∀ j k u v, m.lookup j = some u → m.lookup k = some v → stamp u ≤ stamp v → due v = true → due u = true)
    (k : κ) : ¬ Hidden due q m k := by
  rintro ⟨⟨v, hk, hv⟩, hidden⟩
  obtain ⟨pre, post, split⟩ := List.append_of_mem (listed k v hk)
  obtain ⟨j, hj, u, hu, young⟩ := hidden pre post split
  rw [Ordered, split] at h
  have rel := (List.pairwise_append.1 h).2.2 j hj k (by simp) u v hu hk
  rw [older j k u v hu hk rel hv] at young
  cases young

end Order

section Turn

variable {stamp : α → Nat} {q : List κ} {m m' : KeyMap κ α}

theorem InTurn.mono (h : InTurn stamp q m) (old : ∀ k v, m'.lookup k = some v → m.lookup k = some v) :
    InTurn stamp q m' := by
  induction q with
  | nil => trivial
  | cons k q ih =>
    exact ⟨h.1.imp_right fun rel j hj u v hu hv => rel j hj u v (old _ _ hu) (old _ _ hv), ih h.2⟩

theorem InTurn.suffix {pre : List κ} (h : InTurn stamp (pre ++ q) m) : InTurn stamp q m := by
  induction pre with
  | nil => exact h
  | cons k pre ih => exact ih h.2

/-- A filter keeps all places of a key or none. -/
theorem InTurn.filter (h : InTurn stamp q m) (p : κ → Bool) : InTurn stamp (q.filter p) m := by
  induction q with
  | nil => trivial
  | cons k q ih =>
    by_cases hp : p k = true
    · rw [List.filter_cons_of_pos hp]
      refine ⟨?_, ih h.2⟩
      apply h.1.imp
      · exact fun again => List.mem_filter.2 ⟨again, hp⟩
      · exact fun rel j hj => rel j (List.mem_of_mem_filter hj)
    · rw [List.filter_cons_of_neg hp]
      exact ih h.2

/-- A new entry at the end, with a stamp that none exceeds; the key may have old places. -/
theorem InTurn.push {k : κ} {v : α} (h : InTurn stamp q m)
    (latest : ∀ j u, m.lookup j = some u → stamp u ≤ stamp v) : InTurn stamp (q ++ [k]) (m.insert k v) := by
  induction q with
  | nil => exact ⟨.inr (by simp), trivial⟩
  | cons i q ih =>
    refine ⟨?_, ih h.2⟩
    by_cases same : i = k
    · exact .inl (by simp [same])
    apply h.1.imp
    · exact fun again => List.mem_append_left _ again
    · intro rel j hj u w hu hw
      rw [KeyMap.lookup_insert_eq, if_neg same] at hu
      rw [KeyMap.lookup_insert_eq] at hw
      split at hw
      next => cases hw; exact latest i u hu
      next ne =>
        have old : j ∈ q := (List.mem_append.1 hj).resolve_right fun last => ne (List.mem_singleton.1 last)
        exact rel j old u w hu hw

theorem InTurn.replace {k : κ} {v w : α} (h : InTurn stamp q m) (old : m.lookup k = some v)
    (same : stamp w = stamp v) : InTurn stamp q (m.insert k w) := by
  have back : ∀ i u, (m.insert k w).lookup i = some u → ∃ u', m.lookup i = some u' ∧ stamp u = stamp u' := by
    intro i u hu
    rw [KeyMap.lookup_insert_eq] at hu
    split at hu
    · rename_i hi; cases hu; exact ⟨v, by rw [hi]; exact old, same⟩
    · exact ⟨u, hu, rfl⟩
  induction q with
  | nil => trivial
  | cons i q ih =>
    refine ⟨h.1.imp_right fun rel j hj u x hu hx => ?_, ih h.2⟩
    obtain ⟨u', hu', eu⟩ := back i u hu
    obtain ⟨x', hx', ex⟩ := back j x hx
    rw [eu, ex]
    exact rel j hj u' x' hu' hx'

theorem popFirst_append {pre rest : List κ} {k : κ} {v : α} (stale : ∀ i ∈ pre, m.lookup i = none)
    (h : m.lookup k = some v) : popFirst m (pre ++ k :: rest) = some (k, v, rest) := by
  induction pre with
  | nil => simp only [List.nil_append, popFirst, h]
  | cons i pre ih =>
    have here := stale i List.mem_cons_self
    rw [List.cons_append, popFirst, here]
    exact ih fun j hj => stale j (List.mem_cons_of_mem _ hj)

omit [DecidableEq κ] in
/-- The last place of a key. -/
theorem exists_last {l : List κ} {k : κ} (h : k ∈ l) : ∃ mid post, l = mid ++ k :: post ∧ k ∉ post := by
  obtain ⟨as, bs, split, first⟩ := List.eq_append_cons_of_mem (List.mem_reverse.2 h)
  refine ⟨bs.reverse, as.reverse, ?_, fun mem => first (List.mem_reverse.1 mem)⟩
  rw [← List.reverse_reverse l, split]
  simp

/-- The first key in the map belongs to an oldest entry exactly when it is not overtaken. -/
theorem popFirst_oldest_iff {k : κ} {v : α} {rest : List κ} (turn : InTurn stamp q m) (listed : Listed q m)
    (first : popFirst m q = some (k, v, rest)) :
    (∀ j u, m.lookup j = some u → stamp v ≤ stamp u) ↔ ¬ Overtaken stamp q m := by
  obtain ⟨pre, rfl, stale, hk⟩ := popFirst_some first
  constructor
  · rintro oldest ⟨pre', i, mid, post, w, split, stale', hi, j, _, u, hj, lt⟩
    rw [split, popFirst_append stale' hi] at first
    cases first
    exact absurd (oldest j u hj) (not_le.2 lt)
  · intro fine j u hj
    by_contra lt
    have behind : j ∈ rest := by
      rcases List.mem_append.1 (listed j u hj) with before | rest
      · rw [stale j before] at hj; cases hj
      · refine (List.mem_cons.1 rest).resolve_left ?_
        rintro rfl
        rw [hk] at hj; cases hj
        exact lt le_rfl
    have turn := turn.suffix
    rcases turn.1 with again | rel
    · obtain ⟨mid, post, rfl, last⟩ := exists_last again
      have turn' : InTurn stamp (k :: post) m := InTurn.suffix turn.2
      have rel := turn'.1.resolve_left last
      refine fine ⟨pre, k, mid, post, v, rfl, stale, hk, j, ?_, u, hj, not_le.1 lt⟩
      refine (List.mem_append.1 behind).resolve_right fun after => ?_
      rcases List.mem_cons.1 after with rfl | after
      · rw [hk] at hj; cases hj
        exact lt le_rfl
      · exact lt (rel j after v u hk hj)
    · exact lt (rel j behind v u hk hj)

/-- In a queue that names no key twice nothing is overtaken. -/
theorem not_overtaken (once : q.Nodup) : ¬ Overtaken stamp q m := by
  rintro ⟨pre, k, mid, post, _, rfl, _⟩
  have again : (k :: (mid ++ k :: post)).Nodup := (List.nodup_append.1 once).2.1
  exact (List.nodup_cons.1 again).1 (by simp)

end Turn

section Left

variable {due : α → Bool} {q q' popped : List κ} {m m' : KeyMap κ α} {out : List (κ × α)}

/-- A sweep takes off the queue what is in front of the first young key. -/
theorem Swept.popped_eq (sw : Swept due q m popped q' m' out) : popped = q.takeWhile fun j => !young due m j := by
  have front : ∀ j ∈ popped, (!young due m j) = true := by
    intro j hj
    cases h : m.lookup j with
    | none => simp [young, h]
    | some v => simp [young, h, sw.allDue j hj v h]
  rw [sw.queue, List.takeWhile_append_of_pos front]
  cases q' with
  | nil => simp
  | cons k rest =>
    obtain ⟨v, hk, fresh⟩ := sw.stop k rest rfl
    have youngK : young due m k = true := by simp [young, (sw.lookup_some hk).2, fresh]
    rw [List.takeWhile_cons_of_neg (by simp [youngK]), List.append_nil]

theorem Swept.isSome_eq (sw : Swept due q m popped q' m' out) (k : κ) :
    (m'.lookup k).isSome = stays due q m k := by
  rw [sw.lookup k, stays, ← sw.popped_eq]
  split
  next h => simp [h]
  next h => simp [h]

/-- The places of the keys that are left, of which the sweep took none. -/
theorem Swept.places (sw : Swept due q m popped q' m' out) :
    (q'.filter fun k => (m'.lookup k).isSome) = q.filter (stays due q m) := by
  have gone : popped.filter (fun k => (m'.lookup k).isSome) = [] := by
    rw [List.filter_eq_nil_iff]
    intro k hk
    rw [sw.lookup k, if_pos hk]
    exact Bool.false_ne_true
  have all : (q.filter fun k => (m'.lookup k).isSome) = q'.filter fun k => (m'.lookup k).isSome := by
    rw [sw.queue, List.filter_append, gone, List.nil_append]
  rw [← all]
  exact congrArg (fun p => q.filter p) (funext sw.isSome_eq)

theorem Swept.size (sw : Swept due q m popped q' m' out) :
    KeyMap.size m' = (m.keys.filter (stays due q m)).length := by
  apply List.Perm.length_eq
  refine (List.perm_ext_iff_of_nodup m'.keys_nodup (m.keys_nodup.filter _)).2 fun k => ?_
  rw [List.mem_filter, ← sw.isSome_eq, AList.lookup_isSome, AList.mem_keys]
  constructor
  · intro here
    obtain ⟨v, hv⟩ := KeyMap.exists_lookup (AList.mem_keys.1 here)
    exact ⟨KeyMap.mem_keys_of_lookup (sw.lookup_some hv).2, here⟩
  · exact fun both => both.2

end Left

end ExpiryQueue
