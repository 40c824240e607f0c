import IpcRelay.Receiver.ReassemblerFacts

/-!
# What a pending entry stands for

The store keeps a buffer, a map of flags and a counter; what they mean is told
by the calls made so far. `sinceOpened` reads off a history the fragments that
were taken in for a key since its entry was last opened, and `Holds` says that
an entry is exactly what these fragments make. `tracked_of_trace` carries the
relation through every run, so a completed message is known by its fragments:
`completed_holds` is what the results below start from.
-/

namespace IpcRelay

open Wire Overlay ExpiryQueue Machine

/-- A fragment with the clock reading of the call that brought it. -/
structure Arrival where
  frag : Fragment
  now : UInt64

namespace Arrival

def index (a : Arrival) : Nat := a.frag.hdr.fragmentIndex.toNat

def patch (a : Arrival) : Patch UInt8 := a.frag.patch

end Arrival

namespace Reassembler

abbrev History := List (Op × Outcome)

/-- The fragments that the entry of `k` took in, after one more call: the call that
opened the entry starts the list anew. -/
def collect (k : Key) (held : List Arrival) : Op × Outcome → List Arrival
  | (.add f now, .added o) =>
    if f.key = k ∧ f.Several ∧ (o.result = .incomplete ∨ o.result = .complete) then
      if o.newMessage then [⟨f, now⟩] else held ++ [⟨f, now⟩]
    else held
  | _ => held

/-- The fragments that were taken in for `k` since its entry was last opened. -/
def sinceOpened (k : Key) (h : History) : List Arrival := h.foldl (collect k) []

/-- The entry of `k` is what the fragments `held` make of it. -/
structure Holds (k : Key) (e : Entry) (held : List Arrival) : Prop where
  key : ∀ a ∈ held, a.frag.key = k
  several : ∀ a ∈ held, a.frag.Several
  same : ∀ a ∈ held, Consistent a.frag e
  first : ∃ a rest, held = a :: rest ∧
    e.firstSeenNs = a.now ∧ e.timestampNs = a.frag.hdr.timestampNs ∧ e.flags = a.frag.hdr.flags
  received : ∀ i : Nat, e.received[i]? = some true ↔ i ∈ held.map Arrival.index
  distinct : (held.map Arrival.index).Nodup
  counted : e.fragmentsReceived.toNat = held.length
  buffer : e.buffer = overlay (List.replicate e.messageLength.toNat 0) (held.map Arrival.patch)

@[simp] theorem sinceOpened_nil (k : Key) : sinceOpened k [] = [] := rfl

@[simp] theorem sinceOpened_snoc (k : Key) (h : History) (x : Op × Outcome) :
    sinceOpened k (h ++ [x]) = collect k (sinceOpened k h) x := by
  simp [sinceOpened]

theorem collect_other {k : Key} {held : List Arrival} {f : Fragment} {now : UInt64} {o : AddOutcome}
    (other : f.key ≠ k) : collect k held (.add f now, .added o) = held :=
  if_neg fun h => other h.1

theorem collect_opened {held : List Arrival} {f : Fragment} {now : UInt64} (several : f.Several)
    {out : CompletedMessage} :
    collect f.key held (.add f now, .added ⟨.incomplete, out, true⟩) = [⟨f, now⟩] := by
  simp [collect, several]

theorem collect_taken {held : List Arrival} {f : Fragment} {now : UInt64} (several : f.Several)
    {out : CompletedMessage} {r : Result} (taken : r = .incomplete ∨ r = .complete) :
    collect f.key held (.add f now, .added ⟨r, out, false⟩) = held ++ [⟨f, now⟩] := by
  simp [collect, several, taken]

theorem collect_ignored {k : Key} {held : List Arrival} {f : Fragment} {now : UInt64} {o : AddOutcome}
    (incomplete : o.result ≠ .incomplete) (complete : o.result ≠ .complete) :
    collect k held (.add f now, .added o) = held :=
  if_neg fun h => h.2.2.elim incomplete complete

theorem collect_single {k : Key} {held : List Arrival} {f : Fragment} {now : UInt64} {o : AddOutcome}
    (single : ¬ f.Several) : collect k held (.add f now, .added o) = held :=
  if_neg fun h => single h.2.1

section Arrivals

variable {k : Key} {held : List Arrival} {h : History}

theorem mem_collect {a : Arrival} {x : Op × Outcome} (ha : a ∈ collect k held x) :
    a ∈ held ∨ ∃ o, x = (.add a.frag a.now, .added o) := by
  obtain ⟨op, o⟩ := x
  cases op with
  | expire now => exact .inl ha
  | add f now =>
    cases o with
    | expired o => exact .inl ha
    | added o =>
      simp only [collect] at ha
      split at ha
      · split at ha
        · obtain rfl := List.mem_singleton.1 ha; exact .inr ⟨o, rfl⟩
        · rcases List.mem_append.1 ha with ha | ha
          · exact .inl ha
          · obtain rfl := List.mem_singleton.1 ha; exact .inr ⟨o, rfl⟩
      · exact .inl ha

/-- What an entry holds was brought by calls of the history. -/
theorem arrival_in_history {a : Arrival} (ha : a ∈ sinceOpened k h) :
    ∃ o, (Op.add a.frag a.now, Outcome.added o) ∈ h := by
  induction h using List.reverseRecOn with
  | nil => simp at ha
  | append_singleton h x ih =>
    rw [sinceOpened_snoc] at ha
    rcases mem_collect ha with ha | ⟨o, rfl⟩
    · obtain ⟨o, ho⟩ := ih ha
      exact ⟨o, List.mem_append_left _ ho⟩
    · exact ⟨o, by simp⟩

end Arrivals

section Holds

variable {k : Key} {e : Entry} {f : Fragment} {held : List Arrival}

theorem Holds.opened (now : UInt64) (several : f.Several) :
    Holds f.key ((openEntry f.hdr now).store f) [⟨f, now⟩] where
  key := by simp
  several := by simpa using several
  same := by
    intro a ha
    obtain rfl := List.mem_singleton.1 ha
    exact consistent_openEntry f now
  first := ⟨_, [], rfl, rfl, rfl, rfl⟩
  received i := by
    have index := f.valid.index
    simp only [Entry.store, openEntry, List.getElem?_set, List.length_replicate, List.map_cons, List.map_nil,
      List.mem_singleton, Arrival.index]
    by_cases hi : f.hdr.fragmentIndex.toNat = i
    · subst hi; simp [index]
    · simp [hi, Ne.symm hi, List.getElem?_replicate]
  distinct := by simp
  counted := by rfl
  buffer := by rfl

theorem Holds.store (h : Holds k e held) (ok : e.Ok) (now : UInt64) (key : f.key = k) (several : f.Several)
    (same : Consistent f e) (fresh : e.received[f.hdr.fragmentIndex.toNat]? = some false) :
    Holds k (e.store f) (held ++ [⟨f, now⟩]) where
  key := by
    intro a ha
    rcases List.mem_append.1 ha with ha | ha
    · exact h.key a ha
    · obtain rfl := List.mem_singleton.1 ha; exact key
  several := by
    intro a ha
    rcases List.mem_append.1 ha with ha | ha
    · exact h.several a ha
    · obtain rfl := List.mem_singleton.1 ha; exact several
  same := by
    intro a ha
    rcases List.mem_append.1 ha with ha | ha
    · exact h.same a ha
    · obtain rfl := List.mem_singleton.1 ha; exact same
  first := by
    obtain ⟨a, rest, hheld, seen, stamp, flags⟩ := h.first
    exact ⟨a, rest ++ [⟨f, now⟩], by simp [hheld], seen, stamp, flags⟩
  received i := by
    have lt := index_lt ok same
    simp only [Entry.store, List.getElem?_set, List.map_append, List.mem_append, ← h.received i, List.map_cons,
      List.map_nil, List.mem_singleton, Arrival.index]
    by_cases hi : f.hdr.fragmentIndex.toNat = i
    · subst hi; simp [lt]
    · simp [hi, Ne.symm hi]
  distinct := by
    have new : f.hdr.fragmentIndex.toNat ∉ held.map Arrival.index := by
      rw [← h.received, fresh]; simp
    rw [List.map_append, List.nodup_append]
    refine ⟨h.distinct, by simp, ?_⟩
    intro i hi j hj
    obtain rfl := List.mem_singleton.1 hj
    intro eq
    rw [eq] at hi
    exact new hi
  counted := by
    show (e.fragmentsReceived + 1).toNat = _
    rw [received_succ ok, h.counted, List.length_append]
    rfl
  buffer := by
    show splice e.buffer _ _ = _
    rw [List.map_append, List.map_singleton, overlay_snoc, h.buffer]
    rfl

theorem Holds.patches_fit (h : Holds k e held) :
    ∀ p ∈ held.map Arrival.patch, p.Fits (List.replicate e.messageLength.toNat (0 : UInt8)).length := by
  intro p hp
  obtain ⟨a, ha, rfl⟩ := List.mem_map.1 hp
  rw [List.length_replicate, ← (h.same a ha).2]
  exact a.frag.patch_fits

/-- A byte of the buffer comes from a fragment that covers it, or is the zero of the
fresh buffer where no fragment does. -/
theorem Holds.byte (h : Holds k e held) {p : Nat} (lt : p < e.messageLength.toNat) :
    (∃ a ∈ held, a.patch.Covers p ∧ e.buffer[p]? = a.patch.data[p - a.patch.off]?) ∨
      (∀ a ∈ held, ¬ a.patch.Covers p) ∧ e.buffer[p]? = some 0 := by
  rcases overlay_cases h.patches_fit p with ⟨uncovered, eq⟩ | ⟨q, hq, covers, eq⟩
  · refine .inr ⟨fun a ha => uncovered _ (List.mem_map.2 ⟨a, ha, rfl⟩), ?_⟩
    rw [h.buffer, eq]
    simp [lt]
  · obtain ⟨a, ha, rfl⟩ := List.mem_map.1 hq
    exact .inl ⟨a, ha, covers, by rw [h.buffer, eq]⟩

theorem Holds.buffer_length (h : Holds k e held) : e.buffer.length = e.messageLength.toNat := by
  rw [h.buffer, length_overlay h.patches_fit, List.length_replicate]

/-- The indices taken in are within the fragment count. -/
theorem Holds.index_lt (h : Holds k e held) {a : Arrival} (ha : a ∈ held) : a.index < e.fragmentCount.toNat := by
  rw [← (h.same a ha).1]; exact a.frag.valid.index

/-- A full entry holds every index once. -/
theorem Holds.full (h : Holds k e held) (full : e.fragmentsReceived.toNat = e.fragmentCount.toNat) :
    (held.map Arrival.index).Perm (List.range e.fragmentCount.toNat) := by
  have sub : held.map Arrival.index ⊆ List.range e.fragmentCount.toNat := by
    intro i hi
    obtain ⟨a, ha, rfl⟩ := List.mem_map.1 hi
    exact List.mem_range.2 (h.index_lt ha)
  apply List.Subperm.perm_of_length_le (h.distinct.subperm sub)
  rw [List.length_range, List.length_map, ← h.counted, full]

end Holds

section Run

variable {cfg : Config} {s s' : Reassembler} {h : History}

/-- Every pending entry is what the history says of it. -/
def Tracked (h : History) (s : Reassembler) : Prop :=
  ∀ k e, s.entries.lookup k = some e → Holds k e (sinceOpened k h)

theorem tracked_add {f : Fragment} {now : UInt64} {o : AddOutcome} (inv : Inv cfg s) (tracked : Tracked h s)
    (c : AddCase cfg s f now s' o) : Tracked (h ++ [(.add f now, .added o)]) s' := by
  intro k e he
  rw [sinceOpened_snoc]
  cases c with
  | whole single => rw [collect_single single]; exact tracked k e he
  | oversize several big => rw [collect_ignored (by simp) (by simp)]; exact tracked k e he
  | duplicate => rw [collect_ignored (by simp) (by simp)]; exact tracked k e he
  | inconsistent =>
    rw [collect_ignored (by simp) (by simp)]
    exact tracked k e (lookup_of_erase he)
  | opened several =>
    rw [KeyMap.lookup_insert_eq] at he
    split at he
    next hk => cases he; subst hk; rw [collect_opened several]; exact .opened now several
    next hk => rw [collect_other (Ne.symm hk)]; exact tracked k e he
  | displaced several =>
    rw [KeyMap.lookup_insert_eq] at he
    split at he
    next hk => cases he; subst hk; rw [collect_opened several]; exact .opened now several
    next hk => rw [collect_other (Ne.symm hk)]; exact tracked k e (lookup_of_erase he)
  | stored several fits old same fresh =>
    rw [KeyMap.lookup_insert_eq] at he
    split at he
    next hk =>
      cases he; subst hk
      rw [collect_taken several (.inl rfl)]
      exact (tracked _ _ old).store (inv.entryOk _ _ old) now rfl several same fresh
    next hk => rw [collect_other (Ne.symm hk)]; exact tracked k e he
  | completed several =>
    have hk : f.key ≠ k := by
      intro hk
      rw [KeyMap.lookup_erase_eq, if_pos hk.symm] at he
      cases he
    rw [collect_other hk]
    exact tracked k e (lookup_of_erase he)

theorem tracked_step {op : Op} {o : Outcome} (inv : Inv cfg s) (tracked : Tracked h s)
    (c : StepCase cfg s op s' o) : Tracked (h ++ [(op, o)]) s' := by
  cases c with
  | add c => exact tracked_add inv tracked c
  | expire sw =>
    intro k e he
    rw [sinceOpened_snoc]
    exact tracked k e (sw.lookup_some he).2

theorem tracked_of_trace (pos : 0 < cfg.maxPending) (tr : Trace (step cfg) {} h s) : Inv cfg s ∧ Tracked h s := by
  apply tr.history (I := fun h s => Inv cfg s ∧ Tracked h s)
  · exact ⟨inv_init cfg, by intro k e he; simp at he⟩
  · intro g u op u' o both hs
    have c := stepCase_of_step both.1 pos hs
    exact ⟨c.inv both.1, tracked_step both.1 both.2 c⟩

/-- A completed message is the entry that the fragments since the opening make, all of them there. -/
theorem completed_holds {f : Fragment} {now : UInt64} {o : AddOutcome} (inv : Inv cfg s) (tracked : Tracked h s)
    (c : AddCase cfg s f now s' o) (several : f.Several) (complete : o.result = .complete) :
    ∃ e, Holds f.key e (sinceOpened f.key (h ++ [(.add f now, .added o)])) ∧ o.out = completedOf f.key e ∧
      e.fragmentsReceived.toNat = e.fragmentCount.toNat ∧ Consistent f e := by
  cases c with
  | whole single => exact absurd several single
  | oversize => cases complete
  | opened => cases complete
  | displaced => cases complete
  | inconsistent => cases complete
  | duplicate => cases complete
  | stored => cases complete
  | @completed e several fits old same fresh last =>
    have ok := inv.entryOk _ _ old
    refine ⟨e.store f, ?_, rfl, ?_, same⟩
    · rw [sinceOpened_snoc, collect_taken several (.inr rfl)]
      exact (tracked _ _ old).store ok now rfl several same fresh
    · show (e.fragmentsReceived + 1).toNat = e.fragmentCount.toNat
      rw [received_succ ok]
      exact last

end Run

end Reassembler

end IpcRelay
