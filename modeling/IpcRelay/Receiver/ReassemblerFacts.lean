import IpcRelay.Lib.ExpiryQueue
import IpcRelay.Receiver.Reassembler

/-!
# What one call on the reassembler does

`Inv` is the invariant of the store: every entry is internally consistent
(`Entry.Ok`), every pending key is listed in `order_`, and there are at most
`max_pending` entries. Inside it no call faults, and `add_cases` says everything
that `add` can do to the store, one constructor of `AddCase` for each way
through the function. Every later result about `add` is a case analysis on it.
-/

namespace IpcRelay

open Wire Overlay ExpiryQueue

/-- The entry after it took in a fragment. -/
def Entry.store (e : Entry) (f : Fragment) : Entry :=
  { e with
    buffer := splice e.buffer f.hdr.fragmentOffset.toNat f.payload
    received := e.received.set f.hdr.fragmentIndex.toNat true
    fragmentsReceived := e.fragmentsReceived + 1 }

/-- The sizes and the count of an entry fit together, and a fragment is still missing. -/
structure Entry.Ok (e : Entry) : Prop where
  receivedLen : e.received.length = e.fragmentCount.toNat
  bufferLen : e.buffer.length = e.messageLength.toNat
  counted : e.fragmentsReceived.toNat = e.received.count true
  partly : e.fragmentsReceived.toNat < e.fragmentCount.toNat
  several : e.fragmentCount ≠ 1

namespace Reassembler

structure Inv (cfg : Config) (s : Reassembler) : Prop where
  entryOk : ∀ k e, s.entries.lookup k = some e → e.Ok
  short : ∀ k e, s.entries.lookup k = some e → e.messageLength.toNat ≤ cfg.maxMessageLength
  listed : Listed s.order s.entries
  bounded : s.entries.size ≤ cfg.maxPending

theorem inv_init (cfg : Config) : Inv cfg {} where
  entryOk := by simp
  short := by simp
  listed := by simp [Listed]
  bounded := by simp

end Reassembler

namespace Wire.Fragment

/-- The key that the fragment is filed under. -/
abbrev key (f : Fragment) : Key := Reassembler.keyOf f.hdr

/-- The fragment belongs to a message of several fragments. -/
def Several (f : Fragment) : Prop := f.hdr.fragmentCount ≠ 1

instance (f : Fragment) : Decidable f.Several := by unfold Several; infer_instance

/-- The fragment as a patch of the message. -/
def patch (f : Fragment) : Patch UInt8 := ⟨f.hdr.fragmentOffset.toNat, f.payload⟩

theorem patch_fits (f : Fragment) : f.patch.Fits f.hdr.messageLength.toNat := by
  have := f.valid.range
  unfold Patch.Fits patch
  rw [f.payload_length]
  exact this

/-- The whole message that an unfragmented datagram is. -/
def message (f : Fragment) : CompletedMessage where
  sourceId := f.hdr.sourceId
  sequence := f.hdr.sequence
  timestampNs := f.hdr.timestampNs
  flags := f.hdr.flags
  data := f.payload
  length := f.hdr.fragmentLength.toNat

end Wire.Fragment

namespace Reassembler

/-- The fragment agrees with the entry on what `add` compares. -/
def Consistent (f : Fragment) (e : Entry) : Prop :=
  f.hdr.fragmentCount = e.fragmentCount ∧ f.hdr.messageLength = e.messageLength

/-- The message that a complete entry of a key makes. -/
def completedOf (k : Key) (e : Entry) : CompletedMessage where
  sourceId := k.sourceId
  sequence := k.sequence
  timestampNs := e.timestampNs
  flags := e.flags
  data := e.buffer
  length := e.buffer.length

/-- The ways through `add` for an accepted fragment. -/
inductive AddCase (cfg : Config) (s : Reassembler) (f : Fragment) (now : UInt64) :
    Reassembler → AddOutcome → Prop where
  | whole (single : ¬ f.Several) : AddCase cfg s f now s ⟨.complete, f.message, true⟩
  | oversize (several : f.Several) (big : f.hdr.messageLength.toNat > cfg.maxMessageLength) :
      AddCase cfg s f now s ⟨.malformed, {}, false⟩
  | opened (several : f.Several) (fits : f.hdr.messageLength.toNat ≤ cfg.maxMessageLength)
      (new : s.entries.lookup f.key = none) (room : s.entries.size < cfg.maxPending) :
      AddCase cfg s f now
        { s with entries := s.entries.insert f.key ((openEntry f.hdr now).store f), order := s.order ++ [f.key] }
        ⟨.incomplete, {}, true⟩
  | displaced {k : Key} {d : Entry} {rest : List Key} (several : f.Several)
      (fits : f.hdr.messageLength.toNat ≤ cfg.maxMessageLength) (new : s.entries.lookup f.key = none)
      (full : s.entries.size = cfg.maxPending) (victim : popFirst s.entries s.order = some (k, d, rest)) :
      AddCase cfg s f now
        { s with entries := (s.entries.erase k).insert f.key ((openEntry f.hdr now).store f),
                 order := rest ++ [f.key], evictions := s.evictions + 1 }
        ⟨.incomplete, {}, true⟩
  | inconsistent {e : Entry} (several : f.Several) (fits : f.hdr.messageLength.toNat ≤ cfg.maxMessageLength)
      (old : s.entries.lookup f.key = some e) (mismatch : ¬ Consistent f e) :
      AddCase cfg s f now { s with entries := s.entries.erase f.key } ⟨.malformed, {}, false⟩
  | duplicate {e : Entry} (several : f.Several) (fits : f.hdr.messageLength.toNat ≤ cfg.maxMessageLength)
      (old : s.entries.lookup f.key = some e) (same : Consistent f e)
      (held : e.received[f.hdr.fragmentIndex.toNat]? = some true) :
      AddCase cfg s f now s ⟨.duplicate, {}, false⟩
  | stored {e : Entry} (several : f.Several) (fits : f.hdr.messageLength.toNat ≤ cfg.maxMessageLength)
      (old : s.entries.lookup f.key = some e) (same : Consistent f e)
      (fresh : e.received[f.hdr.fragmentIndex.toNat]? = some false)
      (more : e.fragmentsReceived.toNat + 1 < e.fragmentCount.toNat) :
      AddCase cfg s f now { s with entries := s.entries.insert f.key (e.store f) } ⟨.incomplete, {}, false⟩
  | completed {e : Entry} (several : f.Several) (fits : f.hdr.messageLength.toNat ≤ cfg.maxMessageLength)
      (old : s.entries.lookup f.key = some e) (same : Consistent f e)
      (fresh : e.received[f.hdr.fragmentIndex.toNat]? = some false)
      (last : e.fragmentsReceived.toNat + 1 = e.fragmentCount.toNat) :
      AddCase cfg s f now { s with entries := s.entries.erase f.key, completed := (e.store f).buffer }
        ⟨.complete, completedOf f.key (e.store f), false⟩

section Entry

theorem openEntry_ok (f : Fragment) (now : UInt64) (several : f.Several) : (openEntry f.hdr now).Ok where
  receivedLen := by simp [openEntry]
  bufferLen := by simp [openEntry]
  counted := by simp [openEntry, List.count_replicate]
  partly := by simpa [openEntry] using f.valid.countPos
  several := several

theorem consistent_openEntry (f : Fragment) (now : UInt64) : Consistent f (openEntry f.hdr now) := ⟨rfl, rfl⟩

theorem index_lt {e : Entry} {f : Fragment} (ok : e.Ok) (same : Consistent f e) :
    f.hdr.fragmentIndex.toNat < e.received.length := by
  rw [ok.receivedLen, ← same.1]; exact f.valid.index

/-- The increment of `fragments_received` does not wrap. -/
theorem received_succ {e : Entry} (ok : e.Ok) : (e.fragmentsReceived + 1).toNat = e.fragmentsReceived.toNat + 1 := by
  have := ok.partly
  have := e.fragmentCount.toNat_lt
  rw [UInt16.toNat_add, UInt16.toNat_one]
  omega

theorem patch_in_buffer {e : Entry} {f : Fragment} (ok : e.Ok) (same : Consistent f e) :
    f.hdr.fragmentOffset.toNat + f.payload.length ≤ e.buffer.length := by
  have := f.valid.range
  rw [ok.bufferLen, ← same.2, f.payload_length]
  exact this

/-- Taking in a fragment keeps the sizes and the count. -/
theorem store_counted {e : Entry} {f : Fragment} (ok : e.Ok) (same : Consistent f e)
    (fresh : e.received[f.hdr.fragmentIndex.toNat]? = some false) :
    (e.store f).fragmentsReceived.toNat = (e.store f).received.count true := by
  have lt := index_lt ok same
  have old : e.received[f.hdr.fragmentIndex.toNat] = false := by
    rw [List.getElem?_eq_getElem lt] at fresh; exact Option.some.inj fresh
  unfold Entry.store
  dsimp only
  rw [received_succ ok, ok.counted, List.count_set lt, old]
  simp

theorem store_ok {e : Entry} {f : Fragment} (ok : e.Ok) (same : Consistent f e)
    (fresh : e.received[f.hdr.fragmentIndex.toNat]? = some false)
    (more : e.fragmentsReceived.toNat + 1 < e.fragmentCount.toNat) : (e.store f).Ok where
  receivedLen := by simpa [Entry.store] using ok.receivedLen
  bufferLen := by
    have fits := patch_in_buffer ok same
    simpa [Entry.store, length_splice fits] using ok.bufferLen
  counted := store_counted ok same fresh
  partly := by
    show (e.fragmentsReceived + 1).toNat < _
    rw [received_succ ok]; exact more
  several := ok.several

end Entry

section Queue

/-- The search of `evict_oldest` is the queue's. -/
theorem popPending_eq (entries : Entries) (order : List Key) : popPending entries order = popFirst entries order := by
  induction order with
  | nil => rfl
  | cons k rest ih =>
    unfold popPending popFirst
    cases entries.lookup k with
    | none => exact ih
    | some e => rfl

/-- An entry is past its timeout, in the program's 64-bit arithmetic. -/
def due (cfg : Config) (now : UInt64) (e : Entry) : Bool := ¬ now - e.firstSeenNs < cfg.timeoutNs

theorem expireLoop_eq (cfg : Config) (now : UInt64) (order : List Key) (entries : Entries) :
    expireLoop cfg now order entries =
      ((sweep (due cfg now) order entries).1, (sweep (due cfg now) order entries).2.1,
        ⟨(sweep (due cfg now) order entries).2.2.length,
          (sweep (due cfg now) order entries).2.2.map fun r => expiredOf r.1 r.2⟩) := by
  induction order generalizing entries with
  | nil => rfl
  | cons k rest ih =>
    unfold expireLoop sweep
    cases entries.lookup k with
    | none => exact ih entries
    | some e =>
      by_cases young : now - e.firstSeenNs < cfg.timeoutNs
      · simp [due, young]
      · simp only [due, young, not_false_eq_true, decide_true, if_true, if_false, ih (entries.erase k)]
        simp

end Queue

section Add

variable {cfg : Config} {s : Reassembler} {f : Fragment} {e : Entry} {new : Bool}

theorem not_consistent : (f.hdr.fragmentCount ≠ e.fragmentCount ∨ f.hdr.messageLength ≠ e.messageLength) ↔
    ¬ Consistent f e := by
  unfold Consistent; tauto

theorem addToEntry_inconsistent (mismatch : ¬ Consistent f e) : addToEntry s f.hdr f.payload e new =
    .ok ({ s with entries := s.entries.erase f.key }, ⟨.malformed, {}, new⟩) :=
  if_pos (not_consistent.2 mismatch)

theorem addToEntry_duplicate (same : Consistent f e) (held : e.received[f.hdr.fragmentIndex.toNat]? = some true) :
    addToEntry s f.hdr f.payload e new = .ok (s, ⟨.duplicate, {}, new⟩) := by
  rw [addToEntry, if_neg (fun h => not_consistent.1 h same)]
  simp [flagAt, held, bind, Except.bind]

/-- The copy of `add`: it stays inside the buffer, and an empty payload is no exception to it. -/
theorem copyPayload_eq (ok : e.Ok) (same : Consistent f e) :
    copyPayload e.buffer f.hdr f.payload = .ok (splice e.buffer f.hdr.fragmentOffset.toNat f.payload) := by
  have fits := patch_in_buffer ok same
  have len := f.payload_length
  unfold copyPayload
  by_cases positive : f.hdr.fragmentLength > 0
  · rw [if_pos positive, memcpy_of_fits (by omega) (by omega), List.take_of_length_le (by omega)]
  · have zero : f.hdr.fragmentLength.toNat = 0 := by
      have := mt UInt16.lt_iff_toNat_lt.2 positive
      simpa using this
    have empty : f.payload = [] := List.length_eq_zero_iff.1 (len.trans zero)
    rw [if_neg positive, empty]
    simp [splice]

theorem addToEntry_fresh (ok : e.Ok) (same : Consistent f e)
    (fresh : e.received[f.hdr.fragmentIndex.toNat]? = some false) :
    addToEntry s f.hdr f.payload e new =
      if (e.store f).fragmentsReceived < (e.store f).fragmentCount then
        .ok ({ s with entries := s.entries.insert f.key (e.store f) }, ⟨.incomplete, {}, new⟩)
      else .ok ({ s with entries := s.entries.erase f.key, completed := (e.store f).buffer },
        ⟨.complete, completedOf f.key (e.store f), new⟩) := by
  rw [addToEntry, if_neg (fun h => not_consistent.1 h same), copyPayload_eq ok same]
  simp only [flagAt, fresh, bind, Except.bind, Bool.false_eq_true, if_false]
  rfl

theorem more_iff (ok : e.Ok) : (e.store f).fragmentsReceived < (e.store f).fragmentCount ↔
    e.fragmentsReceived.toNat + 1 < e.fragmentCount.toNat := by
  rw [UInt16.lt_iff_toNat_lt]
  show (e.fragmentsReceived + 1).toNat < _ ↔ _
  rw [received_succ ok]
  rfl

theorem makeRoomWithin_of_lt (fuel : Nat) (room : s.entries.size < cfg.maxPending) :
    makeRoomWithin cfg fuel s = .ok s := by
  cases fuel <;> exact if_pos room

theorem makeRoom_of_lt (room : s.entries.size < cfg.maxPending) : makeRoom cfg s = .ok s :=
  makeRoomWithin_of_lt _ room

/-- A full store gives up exactly one entry, the first pending one in `order_`. -/
theorem makeRoom_of_full (inv : Inv cfg s) (pos : 0 < cfg.maxPending) (full : s.entries.size = cfg.maxPending) :
    ∃ k d rest, popFirst s.entries s.order = some (k, d, rest) ∧
      makeRoom cfg s =
        .ok { s with entries := s.entries.erase k, order := rest, evictions := s.evictions + 1 } := by
  obtain ⟨k, hk⟩ : ∃ k, k ∈ s.entries.keys := by
    apply List.exists_mem_of_length_pos
    show 0 < s.entries.size
    omega
  obtain ⟨v, hv⟩ := KeyMap.exists_lookup hk
  obtain ⟨⟨k, d, rest⟩, first⟩ := popFirst_of_listed inv.listed hv
  obtain ⟨pre, split, _, hd⟩ := popFirst_some first
  have size := KeyMap.size_erase hd
  refine ⟨k, d, rest, first, ?_⟩
  obtain ⟨n, hn⟩ : ∃ n, s.order.length = n + 1 := ⟨pre.length + rest.length, by rw [split]; simp; omega⟩
  have evict : (evictOldest s).1 =
      { s with entries := s.entries.erase k, order := rest, evictions := s.evictions + 1 } := by
    rw [evictOldest, popPending_eq, first]
  rw [makeRoom, hn, makeRoomWithin, if_neg (by omega), evict]
  apply makeRoomWithin_of_lt
  show KeyMap.size (s.entries.erase k) < _
  omega

theorem fresh_openEntry (f : Fragment) (now : UInt64) :
    (openEntry f.hdr now).received[f.hdr.fragmentIndex.toNat]? = some false := by
  have := f.valid.index
  simp [openEntry, this]

/-- The first fragment of a message is stored, and another one is missing. -/
theorem addToEntry_opened (several : f.Several) (now : UInt64) (order : List Key) (entries : Entries) :
    addToEntry { s with entries := entries.insert f.key (openEntry f.hdr now), order := order }
        f.hdr f.payload (openEntry f.hdr now) true =
      .ok ({ s with entries := entries.insert f.key ((openEntry f.hdr now).store f), order := order },
        ⟨.incomplete, {}, true⟩) := by
  have ok := openEntry_ok f now several
  have more : (openEntry f.hdr now).fragmentsReceived.toNat + 1 < (openEntry f.hdr now).fragmentCount.toNat := by
    have pos := f.valid.countPos
    have ne : f.hdr.fragmentCount.toNat ≠ 1 := fun h => several (UInt16.toNat_inj.1 h)
    show 0 + 1 < f.hdr.fragmentCount.toNat
    omega
  rw [addToEntry_fresh ok (consistent_openEntry f now) (fresh_openEntry f now), if_pos ((more_iff ok).2 more)]
  simp only [AList.insert_insert]

/-- Inside the invariant `add` does not fault and does one of the listed things. -/
theorem add_cases (inv : Inv cfg s) (pos : 0 < cfg.maxPending) (f : Fragment) (now : UInt64) :
    ∃ s' o, add cfg s f.hdr f.payload now = .ok (s', o) ∧ AddCase cfg s f now s' o := by
  unfold add
  by_cases single : f.hdr.fragmentCount = 1
  · rw [if_pos single]
    exact ⟨_, _, rfl, .whole (fun h => h single)⟩
  rw [if_neg single]
  by_cases big : f.hdr.messageLength.toNat > cfg.maxMessageLength
  · rw [if_pos big]
    exact ⟨_, _, rfl, .oversize single big⟩
  rw [if_neg big]
  have fits := Nat.le_of_not_lt big
  cases old : s.entries.lookup (keyOf f.hdr) with
  | none =>
    rcases Nat.lt_or_eq_of_le inv.bounded with room | full
    · refine ⟨_, _, ?_, .opened single fits old room⟩
      simp only [makeRoom_of_lt room, bind, Except.bind]
      exact addToEntry_opened single now _ _
    · obtain ⟨k, d, rest, first, made⟩ := makeRoom_of_full inv pos full
      refine ⟨_, _, ?_, .displaced single fits old full first⟩
      simp only [made, bind, Except.bind]
      exact addToEntry_opened (s := { s with evictions := s.evictions + 1 }) single now _ _
  | some e =>
    have ok := inv.entryOk _ _ old
    by_cases same : Consistent f e
    · have lt := index_lt ok same
      rcases held : e.received[f.hdr.fragmentIndex.toNat] with _ | _
      · have fresh : e.received[f.hdr.fragmentIndex.toNat]? = some false := by
          rw [List.getElem?_eq_getElem lt, held]
        by_cases more : e.fragmentsReceived.toNat + 1 < e.fragmentCount.toNat
        · exact ⟨_, _, (addToEntry_fresh ok same fresh).trans (if_pos ((more_iff ok).2 more)),
            .stored single fits old same fresh more⟩
        · have := ok.partly
          exact ⟨_, _, (addToEntry_fresh ok same fresh).trans (if_neg fun h => more ((more_iff ok).1 h)),
            .completed single fits old same fresh (by omega)⟩
      · have held : e.received[f.hdr.fragmentIndex.toNat]? = some true := by
          rw [List.getElem?_eq_getElem lt, held]
        exact ⟨_, _, addToEntry_duplicate same held, .duplicate single fits old same held⟩
    · exact ⟨_, _, addToEntry_inconsistent same, .inconsistent single fits old same⟩

end Add

section Step

variable {cfg : Config} {s s' : Reassembler}

/-- A new entry after its first fragment. -/
theorem opened_ok (f : Fragment) (now : UInt64) (several : f.Several) : ((openEntry f.hdr now).store f).Ok := by
  apply store_ok (openEntry_ok f now several) (consistent_openEntry f now) (fresh_openEntry f now)
  have pos := f.valid.countPos
  have ne : f.hdr.fragmentCount.toNat ≠ 1 := fun h => several (UInt16.toNat_inj.1 h)
  show 0 + 1 < f.hdr.fragmentCount.toNat
  omega

/-- Fewer entries, each of them an old one. -/
theorem Inv.shrink (inv : Inv cfg s) (old : ∀ k e, s'.entries.lookup k = some e → s.entries.lookup k = some e)
    (listed : Listed s'.order s'.entries) : Inv cfg s' where
  entryOk k e h := inv.entryOk k e (old k e h)
  short k e h := inv.short k e (old k e h)
  listed := listed
  bounded := (KeyMap.size_le_of_keys fun k e h => ⟨e, old k e h⟩).trans inv.bounded

/-- One more entry, which is consistent in itself. -/
theorem Inv.insert (inv : Inv cfg s) {k : Key} {e : Entry} (ok : e.Ok)
    (short : e.messageLength.toNat ≤ cfg.maxMessageLength)
    (bounded : KeyMap.size (s.entries.insert k e) ≤ cfg.maxPending) {order : List Key}
    (listed : Listed order (s.entries.insert k e)) :
    Inv cfg { s with entries := s.entries.insert k e, order := order } where
  entryOk j d h := by
    rw [KeyMap.lookup_insert_eq] at h
    split at h
    · cases h; exact ok
    · exact inv.entryOk j d h
  short j d h := by
    rw [KeyMap.lookup_insert_eq] at h
    split at h
    · cases h; exact short
    · exact inv.short j d h
  listed := listed
  bounded := bounded

theorem lookup_of_erase {entries : Entries} {j k : Key} {e : Entry} (h : (entries.erase j).lookup k = some e) :
    entries.lookup k = some e := by
  rw [KeyMap.lookup_erase_eq] at h
  split at h
  · cases h
  · exact h

theorem AddCase.inv {f : Fragment} {now : UInt64} {o : AddOutcome} (inv : Inv cfg s)
    (c : AddCase cfg s f now s' o) : Inv cfg s' := by
  cases c with
  | whole => exact inv
  | oversize => exact inv
  | duplicate => exact inv
  | opened several fits new room =>
    refine inv.insert (opened_ok f now several) fits ?_ (inv.listed.push)
    rw [KeyMap.size_insert_new new]
    exact room
  | @displaced k d rest several fits new full victim =>
    have rest : Inv cfg { s with entries := s.entries.erase k, order := rest, evictions := s.evictions + 1 } :=
      inv.shrink (fun _ _ h => lookup_of_erase h) (inv.listed.pop victim)
    obtain ⟨_, _, _, hd⟩ := popFirst_some victim
    have gone : (s.entries.erase k).lookup f.key = none := by rw [KeyMap.lookup_erase_eq, new, ite_self]
    have size := KeyMap.size_erase hd
    refine rest.insert (opened_ok f now several) fits ?_ (rest.listed.push)
    rw [KeyMap.size_insert_new gone]
    show KeyMap.size (s.entries.erase k) + 1 ≤ _
    omega
  | inconsistent =>
    exact inv.shrink (fun _ _ h => lookup_of_erase h) (inv.listed.mono fun _ _ h => lookup_of_erase h)
  | @stored e several fits old same fresh more =>
    refine inv.insert (store_ok (inv.entryOk _ _ old) same fresh more) (inv.short _ e old) ?_ (inv.listed.replace old)
    rw [KeyMap.size_insert_old old]
    exact inv.bounded
  | completed =>
    exact inv.shrink (fun _ _ h => lookup_of_erase h) (inv.listed.mono fun _ _ h => lookup_of_erase h)

/-- A completed message carries the source of its last fragment and its whole data. -/
theorem AddCase.out_ok {cfg : Config} {s r : Reassembler} {f : Fragment}
    {now : UInt64} {o : AddOutcome} (c : AddCase cfg s f now r o) (complete : o.result = .complete) :
    o.out.sourceId = f.hdr.sourceId ∧ o.out.length ≤ o.out.data.length := by
  cases c with
  | whole => exact ⟨rfl, f.payload_length.ge⟩
  | completed => exact ⟨rfl, le_rfl⟩
  | oversize => cases complete
  | opened => cases complete
  | displaced => cases complete
  | inconsistent => cases complete
  | duplicate => cases complete
  | stored => cases complete

/-- The length of a completed message fits the 32 bits of a record header. -/
theorem AddCase.out_short {cfg : Config} {s r : Reassembler} {f : Fragment} {now : UInt64} {o : AddOutcome}
    (inv : Inv cfg s) (c : AddCase cfg s f now r o) : o.out.length < 2 ^ 32 := by
  cases c with
  | whole =>
    show f.hdr.fragmentLength.toNat < 2 ^ 32
    have := f.hdr.fragmentLength.toNat_lt
    omega
  | @completed e _ _ old same =>
    have ok := inv.entryOk _ _ old
    have size : (e.store f).buffer.length = e.messageLength.toNat := by
      rw [Entry.store, length_splice (patch_in_buffer ok same), ok.bufferLen]
    show (e.store f).buffer.length < 2 ^ 32
    rw [size]
    exact e.messageLength.toNat_lt
  | oversize => decide
  | opened => decide
  | displaced => decide
  | inconsistent => decide
  | duplicate => decide
  | stored => decide

theorem compact_sublist (order : List Key) (entries : Entries) : (compact order entries).Sublist order := by
  unfold compact
  split
  · exact List.filter_sublist
  · exact List.Sublist.refl _

/-- Compacting drops stale keys only. -/
theorem listed_compact {order : List Key} {entries : Entries} (listed : Listed order entries) :
    Listed (compact order entries) entries := by
  intro k e h
  unfold compact
  split
  · exact List.mem_filter.2 ⟨listed k e h, by rw [h]; rfl⟩
  · exact listed k e h

/-- Everything that one call does: `add` takes one of its ways, `expire` is a
sweep of the queue followed by its compaction. -/
inductive StepCase (cfg : Config) (s : Reassembler) : Op → Reassembler → Outcome → Prop where
  | add {f : Fragment} {now : UInt64} {s' : Reassembler} {o : AddOutcome} (c : AddCase cfg s f now s' o) :
      StepCase cfg s (.add f now) s' (.added o)
  | expire {now : UInt64} {popped q : List Key} {m : Entries} {out : List (Key × Entry)}
      (sw : Swept (due cfg now) s.order s.entries popped q m out) :
      StepCase cfg s (.expire now) { s with entries := m, order := compact q m }
        (.expired ⟨out.length, out.map fun r => expiredOf r.1 r.2⟩)

theorem step_cases (inv : Inv cfg s) (pos : 0 < cfg.maxPending) (op : Op) :
    ∃ s' o, step cfg s op = .ok (s', o) ∧ StepCase cfg s op s' o := by
  cases op with
  | add f now =>
    obtain ⟨s', o, h, c⟩ := add_cases inv pos f now
    exact ⟨s', .added o, by simp only [step, h, bind, Except.bind], .add c⟩
  | expire now =>
    obtain ⟨popped, sw⟩ := sweep_spec (due cfg now) s.order s.entries
    exact ⟨_, _, by simp only [step, expire, expireLoop_eq], .expire sw⟩

/-- A step that was taken is one of the listed ones. -/
theorem stepCase_of_step {op : Op} {o : Outcome} (inv : Inv cfg s) (pos : 0 < cfg.maxPending)
    (h : step cfg s op = .ok (s', o)) : StepCase cfg s op s' o := by
  obtain ⟨t, o', h', c⟩ := step_cases inv pos op
  rw [h] at h'
  cases h'
  exact c

theorem StepCase.inv {op : Op} {o : Outcome} (inv : Inv cfg s) (c : StepCase cfg s op s' o) : Inv cfg s' := by
  cases c with
  | add c => exact c.inv inv
  | expire sw => exact inv.shrink (fun _ _ h => (sw.lookup_some h).2) (listed_compact (sw.listed inv.listed))

/-- Every list of calls runs without a fault, and the invariant holds at the end. -/
theorem run_ok (pos : 0 < cfg.maxPending) (ops : List Op) (inv : Inv cfg s) :
    ∃ t os, Machine.run (step cfg) s ops = .ok (t, os) ∧ Inv cfg t := by
  refine Machine.run_total (I := Inv cfg) ?_ ops inv
  intro u op invu
  obtain ⟨u', o, h, c⟩ := step_cases invu pos op
  exact ⟨u', o, h, c.inv invu⟩

theorem inv_of_trace {h : List (Op × Outcome)} (pos : 0 < cfg.maxPending) (tr : Machine.Trace (step cfg) {} h s) :
    Inv cfg s :=
  tr.invariant (inv_init cfg) fun _ _ _ _ inv hs => (stepCase_of_step inv pos hs).inv inv

end Step

end Reassembler

end IpcRelay
