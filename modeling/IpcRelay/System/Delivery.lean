import IpcRelay.Receiver.Expiry
import IpcRelay.System.EndToEnd

/-!
# No loss without cause

A message of several fragments is completed if all its fragments arrive, in any
order, among any other traffic, provided that no sweep finds it past its timeout
and no new message needs its place. `Underway` is the state of the store in
between: the entry of the message is there and holds the fragments that arrived.
`Underway.other`, `Underway.copy` and `Underway.fresh` say what each kind of
call does to it, `underway_at` carries it along, `no_loss` is the result.
-/

namespace IpcRelay

open Wire ExpiryQueue Machine Reassembler

/-- The entry of the message is pending since `t₀` and holds its fragments of the indices `got`. -/
def Underway (m : Outgoing) (t₀ : UInt64) (got : Nat → Prop) (s : Reassembler) : Prop :=
  ∃ e held, s.entries.lookup m.key = some e ∧ Holds m.key e held ∧ (∀ a ∈ held, m.Own a.frag) ∧
    e.firstSeenNs = t₀ ∧ ∀ i, i ∈ held.map Arrival.index ↔ got i

section Step

variable {cfg : Config} {m : Outgoing} {t₀ : UInt64} {got : Nat → Prop} {s s' : Reassembler}

theorem Underway.keep (under : Underway m t₀ got s)
    (same : ∀ e, s.entries.lookup m.key = some e → e.firstSeenNs = t₀ → s'.entries.lookup m.key = some e) :
    Underway m t₀ got s' := by
  obtain ⟨e, held, he, rest⟩ := under
  exact ⟨e, held, same e he rest.2.2.1, rest⟩

/-- The first fragment opens the entry. -/
theorem underway_opened {f : Fragment} {now : UInt64} {o : AddOutcome} (several : 1 < m.count) (own : m.Own f)
    (new : s.entries.lookup m.key = none) (room : s.pending < cfg.maxPending)
    (fits : m.data.length ≤ cfg.maxMessageLength) (c : AddCase cfg s f now s' o) :
    o = ⟨.incomplete, {}, true⟩ ∧ Underway m now (fun i => i = f.hdr.fragmentIndex.toNat) s' := by
  have key := own.key
  have hseveral := own.several_iff.2 several
  have hlength := own.length
  have hroom : s.entries.size < cfg.maxPending := room
  cases c with
  | whole single => exact absurd hseveral single
  | oversize _ big => omega
  | displaced _ _ _ full => omega
  | inconsistent _ _ old => rw [key, new] at old; cases old
  | duplicate _ _ old => rw [key, new] at old; cases old
  | stored _ _ old => rw [key, new] at old; cases old
  | completed _ _ old => rw [key, new] at old; cases old
  | opened several' =>
    refine ⟨rfl, (openEntry f.hdr now).store f, [⟨f, now⟩], ?_, ?_, ?_, rfl, ?_⟩
    · rw [KeyMap.lookup_insert_eq, if_pos key.symm]
    · rw [← key]; exact .opened now several'
    · intro a ha
      obtain rfl := List.mem_singleton.1 ha
      exact own
    · intro i
      simp [Arrival.index]

/-- Other traffic does not touch the entry, unless it is due or its place is needed. -/
theorem Underway.other {op : Op} {o : Outcome} (under : Underway m t₀ got s)
    (foreign : ∀ f now, op = .add f now → f.key ≠ m.key)
    (young : ∀ now, op = .expire now → now - t₀ < cfg.timeoutNs)
    (room : ∀ f now, op = .add f now → f.Several → f.hdr.messageLength.toNat ≤ cfg.maxMessageLength →
      s.entries.lookup f.key = none → s.pending < cfg.maxPending)
    (c : StepCase cfg s op s' o) : Underway m t₀ got s' := by
  apply under.keep
  intro e he seen
  cases c with
  | @expire now _ _ _ _ sw =>
    refine sw.keeps he ?_
    have := young now rfl
    simp [due, seen, this]
  | @add f now _ _ c =>
    have ne := foreign f now rfl
    cases c with
    | whole => exact he
    | oversize => exact he
    | duplicate => exact he
    | opened => rw [KeyMap.lookup_insert_eq, if_neg (Ne.symm ne)]; exact he
    | displaced several fits new full =>
      have := room f now rfl several fits new
      have : s.entries.size < cfg.maxPending := this
      omega
    | inconsistent => rw [KeyMap.lookup_erase_eq, if_neg (Ne.symm ne)]; exact he
    | stored => rw [KeyMap.lookup_insert_eq, if_neg (Ne.symm ne)]; exact he
    | completed => rw [KeyMap.lookup_erase_eq, if_neg (Ne.symm ne)]; exact he

variable {f : Fragment} {now : UInt64} {o : AddOutcome}

/-- The entry agrees with the message, and its flags tell what has arrived. -/
theorem Underway.entry (under : Underway m t₀ got s) (own : m.Own f) :
    ∃ e held, s.entries.lookup f.key = some e ∧ Holds m.key e held ∧ (∀ a ∈ held, m.Own a.frag) ∧
      e.firstSeenNs = t₀ ∧ (∀ i, i ∈ held.map Arrival.index ↔ got i) ∧ Consistent f e ∧
      (e.received[f.hdr.fragmentIndex.toNat]? = some true ↔ got f.hdr.fragmentIndex.toNat) := by
  obtain ⟨e, held, he, holds, allOwn, seen, hgot⟩ := under
  obtain ⟨a, rest, hheld, _⟩ := holds.first
  have ha : a ∈ held := by rw [hheld]; simp
  have agree := own.agree (allOwn a ha)
  have same := holds.same a ha
  refine ⟨e, held, by rw [own.key]; exact he, holds, allOwn, seen, hgot, ?_, ?_⟩
  · exact ⟨agree.1.trans same.1, agree.2.1.trans same.2⟩
  · rw [holds.received, hgot]

/-- A copy of a fragment that arrived already changes nothing. -/
theorem Underway.copy (under : Underway m t₀ got s) (several : 1 < m.count)
    (fits : m.data.length ≤ cfg.maxMessageLength) (own : m.Own f) (held : got f.hdr.fragmentIndex.toNat)
    (c : AddCase cfg s f now s' o) : o = ⟨.duplicate, {}, false⟩ ∧ s' = s := by
  obtain ⟨e, _, he, _, _, _, _, same, flag⟩ := under.entry own
  have true := flag.2 held
  have hseveral := own.several_iff.2 several
  have hlength := own.length
  cases c with
  | whole single => exact absurd hseveral single
  | oversize _ big => omega
  | opened _ _ new => rw [he] at new; cases new
  | displaced _ _ new => rw [he] at new; cases new
  | inconsistent _ _ old mismatch => rw [he] at old; cases old; exact absurd same mismatch
  | duplicate => exact ⟨rfl, rfl⟩
  | stored _ _ old _ fresh => rw [he] at old; cases old; rw [true] at fresh; cases fresh
  | completed _ _ old _ fresh => rw [he] at old; cases old; rw [true] at fresh; cases fresh

/-- A fragment that was missing is taken in; with the last one the message is complete. -/
theorem Underway.fresh (inv : Inv cfg s) (under : Underway m t₀ got s) (several : 1 < m.count)
    (fits : m.data.length ≤ cfg.maxMessageLength) (own : m.Own f) (missing : ¬ got f.hdr.fragmentIndex.toNat)
    (c : AddCase cfg s f now s' o) :
    (o = ⟨.incomplete, {}, false⟩ ∧ Underway m t₀ (fun i => got i ∨ i = f.hdr.fragmentIndex.toNat) s' ∧
        ∃ i < m.count, ¬ (got i ∨ i = f.hdr.fragmentIndex.toNat)) ∨
      (o = ⟨.complete, m.completed, false⟩ ∧ ∀ i < m.count, got i ∨ i = f.hdr.fragmentIndex.toNat) := by
  obtain ⟨e, held, he, holds, allOwn, seen, hgot, same, flag⟩ := under.entry own
  have hseveral := own.several_iff.2 several
  have hlength := own.length
  have ok := inv.entryOk _ _ he
  have count : e.fragmentCount.toNat = m.count := by rw [← same.1]; exact own.count
  have allOwn' : ∀ a ∈ held ++ [(⟨f, now⟩ : Arrival)], m.Own a.frag := by
    intro a ha
    rcases List.mem_append.1 ha with ha | ha
    · exact allOwn a ha
    · obtain rfl := List.mem_singleton.1 ha; exact own
  have hgot' : ∀ i, i ∈ (held ++ [(⟨f, now⟩ : Arrival)]).map Arrival.index ↔ got i ∨ i = f.hdr.fragmentIndex.toNat := by
    intro i
    rw [List.map_append, List.mem_append, hgot, List.map_singleton, List.mem_singleton]
    rfl
  cases c with
  | whole single => exact absurd hseveral single
  | oversize _ big => omega
  | opened _ _ new => rw [he] at new; cases new
  | displaced _ _ new => rw [he] at new; cases new
  | inconsistent _ _ old mismatch => rw [he] at old; cases old; exact absurd same mismatch
  | duplicate _ _ old _ true => rw [he] at old; cases old; exact absurd (flag.1 true) missing
  | stored _ _ old _ fresh more =>
    rw [he] at old
    cases old
    have holds' := holds.store ok now own.key hseveral same fresh
    refine .inl ⟨rfl, ⟨e.store f, held ++ [⟨f, now⟩], ?_, holds', allOwn', seen, hgot'⟩, ?_⟩
    · rw [← own.key, KeyMap.lookup_insert_eq, if_pos rfl]
    · -- fewer fragments than indices: one is missing
      by_contra all
      have sub : List.range m.count ⊆ (held ++ [(⟨f, now⟩ : Arrival)]).map Arrival.index := by
        intro i hi
        by_contra out
        exact all ⟨i, List.mem_range.1 hi, fun got => out ((hgot' i).2 got)⟩
      have len := (List.nodup_range.subperm sub).length_le
      rw [List.length_range, List.length_map, ← holds'.counted] at len
      have : (e.store f).fragmentsReceived.toNat = e.fragmentsReceived.toNat + 1 := received_succ ok
      omega
  | completed _ _ old _ fresh last =>
    rw [he] at old
    cases old
    have holds' := holds.store ok now own.key hseveral same fresh
    have full : (e.store f).fragmentsReceived.toNat = (e.store f).fragmentCount.toNat := (received_succ ok).trans last
    refine .inr ⟨?_, ?_⟩
    · rw [own.key, Outgoing.assembled holds' full allOwn']
    · intro i hi
      rw [← hgot', (holds'.full full).mem_iff]
      exact List.mem_range.2 (by rw [← count] at hi; exact hi)

end Step

/-- The calls bring the datagrams of the message of key `k`, from the first one of them to
the last one that is new; in between there may be copies, other keys and sweeps. -/
structure Delivers (ds : List Bytes) (k : Key) (ops : List Op) : Prop where
  starts : ∃ f t, ops[0]? = some (.add f t) ∧ f.datagram ∈ ds
  all : ∀ d ∈ ds, ∃ f t, Op.add f t ∈ ops ∧ f.datagram = d
  ends : ∃ f t, ops.getLast? = some (.add f t) ∧ f.datagram ∈ ds ∧
    ∀ g u, Op.add g u ∈ ops.dropLast → g.datagram ≠ f.datagram
  traffic : ∀ f t, Op.add f t ∈ ops → f.datagram ∈ ds ∨ f.key ≠ k

/-- Nothing disturbs the message: no sweep finds it past its timeout, and every new key
finds room. -/
structure Undisturbed (cfg : Config) (s₀ : Reassembler) (ops : List Op) : Prop where
  young : ∀ f t, ops[0]? = some (.add f t) → ∀ now, Op.expire now ∈ ops → now - t < cfg.timeoutNs
  room : ∀ (j : Nat) f t u us, ops[j]? = some (.add f t) → run (step cfg) s₀ (ops.take j) = .ok (u, us) →
    f.Several → f.hdr.messageLength.toNat ≤ cfg.maxMessageLength → u.entries.lookup f.key = none →
    u.pending < cfg.maxPending

/-- Index `i` of the message is among the first `j` calls. -/
def Arrived (m : Outgoing) (ops : List Op) (j i : Nat) : Prop :=
  ∃ f t, Op.add f t ∈ ops.take j ∧ m.Own f ∧ i = f.hdr.fragmentIndex.toNat

section Run

variable {cfg : Config} {m : Outgoing} {ops : List Op} {s₀ : Reassembler}

theorem arrived_succ {j i : Nat} {op : Op} (hop : ops[j]? = some op) :
    Arrived m ops (j + 1) i ↔
      Arrived m ops j i ∨ ∃ f t, op = .add f t ∧ m.Own f ∧ i = f.hdr.fragmentIndex.toNat := by
  simp only [Arrived, List.take_add_one, hop, Option.toList_some, List.mem_append, List.mem_singleton]
  constructor
  · rintro ⟨f, t, mem | eq, own, hi⟩
    · exact .inl ⟨f, t, mem, own, hi⟩
    · exact .inr ⟨f, t, eq.symm, own, hi⟩
  · rintro (⟨f, t, mem, own, hi⟩ | ⟨f, t, eq, own, hi⟩)
    · exact ⟨f, t, .inl mem, own, hi⟩
    · exact ⟨f, t, .inr eq.symm, own, hi⟩

/-- Before the last call some index is missing. -/
theorem missing_before_last (del : Delivers m.datagrams m.key ops) {j : Nat} (lt : j < ops.length) :
    ∃ i < m.count, ¬ Arrived m ops j i := by
  obtain ⟨f, t, _, mem, new⟩ := del.ends
  have own := Outgoing.own_iff_mem.2 mem
  refine ⟨f.hdr.fragmentIndex.toNat, own.at_index.1, ?_⟩
  rintro ⟨g, u, hg, own', index⟩
  refine new g u ?_ ?_
  · rw [List.dropLast_eq_take]
    exact (List.take_sublist_take_left (by omega)).subset hg
  · rw [own'.datagram_eq, own.datagram_eq, index]

/-- With the last call every index is there. -/
theorem arrived_all (del : Delivers m.datagrams m.key ops) {i : Nat} (hi : i < m.count) :
    Arrived m ops ops.length i := by
  obtain ⟨f, t, mem, eq⟩ := del.all (m.datagram i) (List.mem_map.2 ⟨i, List.mem_range.2 hi, rfl⟩)
  have own : m.Own f := ⟨i, hi, eq⟩
  refine ⟨f, t, by rw [List.take_length]; exact mem, own, ?_⟩
  rw [(Outgoing.of_datagram eq).1, (Outgoing.header_toNat hi).2.2.1]

theorem Underway.congr {t₀ : UInt64} {got got' : Nat → Prop} {s : Reassembler} (under : Underway m t₀ got s)
    (same : ∀ i, got i ↔ got' i) : Underway m t₀ got' s := by
  obtain ⟨e, held, he, holds, own, seen, hgot⟩ := under
  exact ⟨e, held, he, holds, own, seen, fun i => (hgot i).trans (same i)⟩

/-- After the first call and before the last one the message is underway. -/
theorem underway_at (pos : 0 < cfg.maxPending) (several : 1 < m.count) (fits : m.data.length ≤ cfg.maxMessageLength)
    (inv : Inv cfg s₀) (new : s₀.entries.lookup m.key = none) (del : Delivers m.datagrams m.key ops)
    (calm : Undisturbed cfg s₀ ops) {f₀ : Fragment} {t₀ : UInt64} (h₀ : ops[0]? = some (.add f₀ t₀)) {j : Nat}
    (hj : 1 ≤ j) :
    j < ops.length → ∀ u us, run (step cfg) s₀ (ops.take j) = .ok (u, us) →
      Inv cfg u ∧ Underway m t₀ (Arrived m ops j) u := by
  induction j, hj using Nat.le_induction with
  | base =>
    intro lt u us ran
    obtain ⟨f, t, first, mem⟩ := del.starts
    rw [h₀] at first
    cases first
    have own := Outgoing.own_iff_mem.2 mem
    have one : ops.take 1 = [] ++ [.add f₀ t₀] := by rw [List.take_add_one, h₀]; rfl
    rw [one] at ran
    obtain ⟨v, _, o, hv, hs, _⟩ := run_snoc.1 ran
    cases hv
    have room := calm.room 0 f₀ t₀ s₀ [] h₀ rfl (own.several_iff.2 several) (by rw [own.length]; exact fits)
      (by rw [own.key]; exact new)
    have step := stepCase_of_step inv pos hs
    refine ⟨step.inv inv, ?_⟩
    cases step with
    | add c =>
      refine (underway_opened several own new room fits c).2.congr ?_
      intro i
      rw [arrived_succ h₀]
      simp [Arrived, own]
  | succ j _ ih =>
    intro lt u us ran
    have hop : ops[j]? = some ops[j] := List.getElem?_eq_getElem (by omega)
    rw [List.take_add_one, hop] at ran
    obtain ⟨v, _, o, hv, hs, _⟩ := run_snoc.1 ran
    obtain ⟨invv, under⟩ := ih (by omega) v _ hv
    have step := stepCase_of_step invv pos hs
    refine ⟨step.inv invv, ?_⟩
    generalize ops[j] = op at hop hs step
    have mem : op ∈ ops := List.mem_of_getElem? hop
    by_cases foreign : ∀ f t, op = .add f t → f.key ≠ m.key
    · refine (under.other foreign ?_ ?_ step).congr fun i => ?_
      · rintro now rfl
        exact calm.young f₀ t₀ h₀ now mem
      · rintro f t rfl hseveral hfits hnew
        exact calm.room j f t v _ hop hv hseveral hfits hnew
      · rw [arrived_succ hop]
        refine ⟨.inl, fun h => h.resolve_right ?_⟩
        rintro ⟨f, t, rfl, own, _⟩
        exact foreign f t rfl own.key
    · push Not at foreign
      obtain ⟨f, t, rfl, key⟩ := foreign
      have own := Outgoing.own_iff_mem.2 ((del.traffic f t mem).resolve_right fun ne => ne key)
      have next : ∀ i, Arrived m ops (j + 1) i ↔ Arrived m ops j i ∨ i = f.hdr.fragmentIndex.toNat := by
        intro i
        rw [arrived_succ hop]
        simp [own]
      cases step with
      | add c =>
      by_cases held : Arrived m ops j f.hdr.fragmentIndex.toNat
      · rw [(under.copy several fits own held c).2]
        refine under.congr fun i => ?_
        rw [next]
        refine ⟨.inl, fun h => h.elim id ?_⟩
        rintro rfl
        exact held
      · rcases under.fresh invv several fits own held c with ⟨_, under', _⟩ | ⟨_, all⟩
        · exact under'.congr fun i => (next i).symm
        · obtain ⟨i, hi, missing⟩ := missing_before_last del lt
          exact absurd ((next i).2 (all i hi)) missing

/-- What each fragment of the message is answered with. -/
theorem delivered_at (pos : 0 < cfg.maxPending) (several : 1 < m.count) (fits : m.data.length ≤ cfg.maxMessageLength)
    (inv : Inv cfg s₀) (new : s₀.entries.lookup m.key = none) (del : Delivers m.datagrams m.key ops)
    (calm : Undisturbed cfg s₀ ops) {s : Reassembler} {os : List Outcome} (ran : run (step cfg) s₀ ops = .ok (s, os))
    {j : Nat} {f : Fragment} {t : UInt64} (hop : ops[j]? = some (.add f t)) (own : m.Own f) :
    ∃ o, os[j]? = some (.added o) ∧ (o.newMessage = true ↔ j = 0) ∧
      (Arrived m ops j f.hdr.fragmentIndex.toNat → o.result = .duplicate) ∧
      (¬ Arrived m ops j f.hdr.fragmentIndex.toNat →
        (j + 1 < ops.length → o.result = .incomplete) ∧
        (j + 1 = ops.length → o.result = .complete ∧ o.out = m.completed)) := by
  have lt : j < ops.length := (List.getElem?_eq_some_iff.1 hop).1
  have len := run_length ran
  obtain ⟨o', ho⟩ : ∃ o', os[j]? = some o' := ⟨_, List.getElem?_eq_getElem (by omega)⟩
  obtain ⟨u, u', before, hs, _, _⟩ := run_at ran (List.getElem?_zip_eq_some.2 ⟨hop, ho⟩)
  obtain ⟨f₀, t₀, h₀, mem₀⟩ := del.starts
  have next : ∀ i, Arrived m ops (j + 1) i ↔ Arrived m ops j i ∨ i = f.hdr.fragmentIndex.toNat := by
    intro i
    rw [arrived_succ hop]
    simp [own]
  rcases Nat.eq_zero_or_pos j with rfl | hj
  · -- the first fragment opens the entry, and it is not the last one
    have start : u = s₀ := by cases before; rfl
    subst start
    have room := calm.room 0 f t u [] hop rfl (own.several_iff.2 several) (by rw [own.length]; exact fits)
      (by rw [own.key]; exact new)
    cases stepCase_of_step inv pos hs with
    | add c =>
      obtain ⟨rfl, _⟩ := underway_opened several own new room fits c
      have nothing : ∀ i, ¬ Arrived m ops 0 i := by simp [Arrived]
      refine ⟨_, ho, by simp, fun h => absurd h (nothing _), fun _ => ⟨fun _ => rfl, fun last => ?_⟩⟩
      -- with one call only, another index would be missing at the end
      have one : ∀ i < m.count, i = f.hdr.fragmentIndex.toNat := by
        intro i hi
        have := arrived_all del hi
        rw [← last] at this
        exact ((next i).1 this).resolve_left (nothing i)
      have zero := one 0 (by omega)
      have first := one 1 several
      omega
  · obtain ⟨invu, under⟩ := underway_at pos several fits inv new del calm h₀ hj lt u _ before
    cases stepCase_of_step invu pos hs with
    | add c =>
    by_cases held : Arrived m ops j f.hdr.fragmentIndex.toNat
    · obtain ⟨rfl, _⟩ := under.copy several fits own held c
      exact ⟨_, ho, by simp; omega, fun _ => rfl, fun fresh => absurd held fresh⟩
    · rcases under.fresh invu several fits own held c with ⟨rfl, _, i, hi, missing⟩ | ⟨rfl, all⟩
      · refine ⟨_, ho, by simp; omega, fun h => absurd h held, fun _ => ⟨fun _ => rfl, fun last => ?_⟩⟩
        have := arrived_all del hi
        rw [← last, next] at this
        exact absurd this missing
      · refine ⟨_, ho, by simp; omega, fun h => absurd h held, fun _ => ⟨fun more => ?_, fun _ => ⟨rfl, rfl⟩⟩⟩
        obtain ⟨i, hi, missing⟩ := missing_before_last del more
        exact absurd ((next i).2 (all i hi)) missing

end Run

open Bridge

/-- A message that the bridge sent in several fragments is completed exactly once, at the
arrival of its last new fragment, when all of them arrive and nothing disturbs it. -/
theorem no_loss (env : NetEnv) (file : ConfigFile) (cfg : BridgeConfig)
    (ok : buildBridgeConfig env file = (cfg, [])) (calls : List Call) (b b' : Bridge) (outs : List Transmitted)
    (ran : run transmit (Bridge.start cfg) calls = .ok (b, outs)) (c : Call) (out : Transmitted)
    (sent : transmit b c = .ok (b', out)) (whole : out.ok = true) (several : 1 < out.datagrams.length)
    (rcfg : Reassembler.Config) (pos : 0 < rcfg.maxPending) (fits : c.data.length ≤ rcfg.maxMessageLength)
    (before : List Op) (s₀ : Reassembler) (os₀ : List Reassembler.Outcome)
    (reached : run (step rcfg) {} before = .ok (s₀, os₀)) (src : BridgeSourceConfig)
    (hsrc : cfg.sources[c.index]? = some src) :
    let msg := messageOf cfg (calls ++ [c]) calls.length c src
    let key : Key := ⟨msg.sourceId, msg.sequence⟩
    (∀ d ∈ out.datagrams, ∃ f, Fragment.ofDatagram d = some f) ∧
      ∀ ops : List Op, s₀.entries.lookup key = none → Delivers out.datagrams key ops → Undisturbed rcfg s₀ ops →
        ∃ s os, run (step rcfg) s₀ ops = .ok (s, os) ∧
          ∀ (j : Nat) f t, ops[j]? = some (.add f t) → f.key = key →
            ∃ o, os[j]? = some (.added o) ∧ (o.newMessage = true ↔ j = 0) ∧
              ((∃ g u, Op.add g u ∈ ops.take j ∧ g.datagram = f.datagram) → o.result = .duplicate) ∧
              ((∀ g u, Op.add g u ∈ ops.take j → g.datagram ≠ f.datagram) →
                (j + 1 < ops.length → o.result = .incomplete) ∧
                (j + 1 = ops.length → o.result = .complete ∧ o.out = msg)) := by
  intro msg key
  have payload := fits_of_accepted ok
  have num := numbered_of_trace payload (Trace.of_run ran)
  have known := known_of_transmit sent
  have same := num.same
  rw [same] at known
  have seq := num.next c.index known
  -- the call has split one message, whose fragments are all out
  obtain ⟨_, out', ran', _, _, _, all, _⟩ := transmit_spec (b := b) (c := c) (by rw [same]; exact payload.fits)
    (by rw [same]; exact payload.pos) (by rw [same]; exact hsrc) seq
  rw [sent] at ran'
  cases ran'
  obtain ⟨m, splits, datagrams⟩ := all whole
  rw [same] at splits
  have count : (calls.zip outs).countP (fun x => x.1.index = c.index) =
      callsBefore (calls ++ [c]) calls.length c.index := by
    have fst : (calls.zip outs).map Prod.fst = calls := List.map_fst_zip (run_length ran).ge
    rw [callsBefore, List.take_left]
    conv_rhs => rw [← fst, List.countP_map]
    rfl
  rw [count] at splits
  have hmsg : m.completed = msg := splits.completed
  have hkey : m.key = key := by
    show m.key = ⟨msg.sourceId, msg.sequence⟩
    rw [← hmsg]
    rfl
  have more : 1 < m.count := by
    rw [datagrams, Outgoing.datagrams, List.length_map, List.length_range] at several
    exact several
  have short : m.data.length ≤ rcfg.maxMessageLength := by rw [splits.data]; exact fits
  have inv := inv_of_trace pos (Trace.of_run reached)
  rw [datagrams, ← hkey, ← hmsg]
  refine ⟨?_, ?_⟩
  · intro d hd
    obtain ⟨i, hi, rfl⟩ := List.mem_map.1 hd
    exact ⟨_, (m.fragment more i (List.mem_range.1 hi)).ofDatagram_datagram⟩
  · intro ops new del calm
    obtain ⟨s, os, rran, _⟩ := run_ok pos ops inv
    refine ⟨s, os, rran, ?_⟩
    intro j f t hop key
    have mem := (del.traffic f t (List.mem_of_getElem? hop)).resolve_right fun ne => ne key
    have own := Outgoing.own_iff_mem.2 mem
    obtain ⟨o, ho, first, copy, fresh⟩ := delivered_at pos more short inv new del calm rran hop own
    refine ⟨o, ho, first, ?_, ?_⟩
    · rintro ⟨g, u, hg, eq⟩
      obtain rfl := Fragment.eq_of_datagram eq
      exact copy ⟨g, u, hg, own, rfl⟩
    · intro unseen
      refine fresh ?_
      rintro ⟨g, u, hg, own', index⟩
      exact unseen g u hg (by rw [own'.datagram_eq, own.datagram_eq, index])

section Runs

/-- The second fragment, half of a message of another source, a copy of the second fragment, a sweep, and the first
fragment just before it would be too late. -/
def labOps : List Op := [.add (labFragment true) 0, .add (half 0 false) 1, .add (labFragment true) 2, .expire 499999999,
  .add (labFragment false) 499999999]

def labKey : Key := ⟨7, 0⟩

theorem labOps_adds {f : Fragment} {t : UInt64} (mem : Op.add f t ∈ labOps) :
    f = labFragment true ∨ f = half 0 false ∨ f = labFragment false := by
  simp only [labOps, List.mem_cons, Op.add.injEq, reduceCtorEq, List.not_mem_nil, or_false, false_or] at mem
  rcases mem with ⟨rfl, -⟩ | ⟨rfl, -⟩ | ⟨rfl, -⟩ | ⟨rfl, -⟩
  · exact .inl rfl
  · exact .inr (.inl rfl)
  · exact .inl rfl
  · exact .inr (.inr rfl)

theorem labOps_delivers : Delivers [labDatagram false, labDatagram true] labKey labOps where
  starts := ⟨labFragment true, 0, rfl, by simp [labDatagram]⟩
  all := by
    intro d hd
    simp only [List.mem_cons, List.not_mem_nil, or_false] at hd
    rcases hd with rfl | rfl
    · exact ⟨labFragment false, 499999999, by simp [labOps], rfl⟩
    · exact ⟨labFragment true, 0, by simp [labOps], rfl⟩
  ends := by
    refine ⟨labFragment false, 499999999, rfl, by simp [labDatagram], ?_⟩
    intro g u hg
    have other : (labFragment true).datagram ≠ (labFragment false).datagram ∧
        (half 0 false).datagram ≠ (labFragment false).datagram := by decide +kernel
    simp only [labOps, List.dropLast, List.mem_cons, Op.add.injEq, reduceCtorEq, List.not_mem_nil, or_false] at hg
    rcases hg with ⟨rfl, -⟩ | ⟨rfl, -⟩ | ⟨rfl, -⟩
    · exact other.1
    · exact other.2
    · exact other.1
  traffic := by
    intro f t hf
    have foreign : (half 0 false).key ≠ labKey := by decide +kernel
    rcases labOps_adds hf with rfl | rfl | rfl
    · exact .inl (by simp [labDatagram])
    · exact .inr foreign
    · exact .inl (by simp [labDatagram])

theorem labOps_undisturbed : Undisturbed {} {} labOps where
  young := by
    intro f t first now mem
    cases first
    obtain rfl : now = 499999999 := by simpa [labOps] using mem
    decide
  room := by
    intro j f t u us hop ran _ _ _
    have lt : j < 5 := (List.getElem?_eq_some_iff.1 hop).1
    -- two entries at most are pending before each of the calls
    have pending : ∀ j < 5, ((run (step {}) {} (labOps.take j)).toOption.map fun r => decide (r.1.pending ≤ 2)) =
        some true := by decide +kernel
    have here := pending j lt
    rw [ran] at here
    have le : u.pending ≤ 2 := of_decide_eq_true (Option.some.inj here)
    show u.pending < 256
    omega

theorem no_loss_lab : ∃ s os o, run (step {}) {} labOps = .ok (s, os) ∧ os[4]? = some (.added o) ∧
    o.result = .complete ∧ o.out.data = [1, 2, 3] := by
  obtain ⟨b', ran⟩ := run_of_observations labCall_outcome
  obtain ⟨u, out, os', sent, rest, eq⟩ := run_cons.1 ran
  obtain ⟨rfl, rfl⟩ := List.cons.inj eq
  have short : labCall.data.length ≤ 16777216 := by decide
  obtain ⟨src, hsrc⟩ : ∃ src, labCfg.sources[labCall.index]? = some src :=
    Option.isSome_iff_exists.1 (by decide +kernel)
  have id : src.id = 7 := by
    have read : labCfg.sources[labCall.index]?.map BridgeSourceConfig.id = some 7 := by decide +kernel
    rw [hsrc] at read
    exact Option.some.inj read
  have key : labKey = ⟨(messageOf labCfg ([] ++ [labCall]) 0 labCall src).sourceId,
      (messageOf labCfg ([] ++ [labCall]) 0 labCall src).sequence⟩ := by
    simp only [messageOf, id]
    rfl
  obtain ⟨_, all⟩ := no_loss labEnv labFile labCfg labFile_accepted [] (Bridge.start labCfg) u [] rfl labCall _ sent rfl
    (by decide) {} (by decide) short [] {} [] rfl src hsrc
  obtain ⟨s, os, rran, results⟩ := all labOps rfl (key ▸ labOps_delivers) labOps_undisturbed
  have mine : (labFragment false).key = labKey := by decide +kernel
  obtain ⟨o, ho, _, _, fresh⟩ := results 4 (labFragment false) 499999999 rfl (mine.trans key)
  have new : ∀ g u, Op.add g u ∈ labOps.take 4 → g.datagram ≠ (labFragment false).datagram := by
    obtain ⟨f, t, last, -, new⟩ := labOps_delivers.ends
    cases last
    exact new
  obtain ⟨complete, msg⟩ := (fresh new).2 rfl
  exact ⟨s, os, o, rran, ho, complete, by rw [msg]; rfl⟩

end Runs

end IpcRelay
